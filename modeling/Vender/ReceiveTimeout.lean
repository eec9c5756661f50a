import Vender.GpioAnswers

namespace Vender

namespace GpioMdb

open Effects

def readAnswers (r : Answer) : List Answer :=
  { rc := r.rc, data := r.data } :: if r.data = [] then [{ tick := r.tick }] else []

def noData (tick : UInt32) : List Answer := [{}, { tick }]

/-- The check at which `wait_receive` reports its timeout, the first one being 0. -/
def reportedAt (deadline : UInt32) (ticks : List UInt32) (g : Gpio) : Option Nat :=
  let answers := ticks.flatMap noData
  match waitReceive deadline (answers.length + 1) { g with answers } with
  | .error (.err (.timeout .receive)) g' => some (ticks.length - 1 - g'.answers.length / 2)
  | _ => none

theorem noData_length (ticks : List UInt32) : (ticks.flatMap noData).length = 2 * ticks.length := by
  simp [noData, Nat.mul_comm]

theorem waitReceive_some (deadline : UInt32) (fuel : Nat) {r : Answer} {answers : List Answer} {g : Gpio}
    (h : g.answers = readAnswers r ++ answers) (accepted : 0 ≤ r.rc) (nonempty : r.data ≠ []) :
    ∃ g', g'.answers = answers ∧ g'.buf = overwrite g.buf r.data ∧ g'.response = g.response ∧
      waitReceive deadline (fuel + 1) g = .ok (min r.data.length bufSize) g' := by
  rw [readAnswers, if_neg nonempty] at h
  have read := serialRead_cons h accepted
  have some_read : 0 < min r.data.length bufSize := by
    have := List.length_pos_iff.mpr nonempty
    simp only [bufSize, blockMaxLength, wordSize]
    omega
  refine ⟨{ g with answers, buf := overwrite g.buf r.data, reads := g.reads ++ [r.data.take bufSize] },
    rfl, rfl, rfl, ?_⟩
  rw [waitReceive, bind_of_ok read, if_pos some_read]
  rfl

theorem waitReceive_none (deadline : UInt32) (fuel : Nat) {r : Answer} {answers : List Answer} {g : Gpio}
    (h : g.answers = readAnswers r ++ answers) (accepted : 0 ≤ r.rc) (empty : r.data = []) :
    ∃ g', g'.answers = answers ∧ g'.buf = overwrite g.buf r.data ∧ g'.response = g.response ∧
      waitReceive deadline (fuel + 1) g =
        if deadline < r.tick then .error (.err (.timeout .receive)) g' else waitReceive deadline fuel g' := by
  rw [readAnswers, if_pos empty] at h
  have read := serialRead_cons h accepted
  let found : Gpio := { g with
    answers := { tick := r.tick } :: answers, buf := overwrite g.buf r.data,
    reads := g.reads ++ [r.data.take bufSize] }
  have ticked : tickSince 0 found = .ok r.tick { found with answers } := tickSince_cons (a := { tick := r.tick }) rfl
  have none_read : ¬ 0 < min r.data.length bufSize := by simp [empty]
  refine ⟨{ found with answers }, rfl, rfl, rfl, ?_⟩
  rw [waitReceive, bind_of_ok read, if_neg none_read]
  exact (bind_of_ok ticked).trans (by split <;> rfl)

theorem waitReceive_check (deadline : UInt32) (fuel : Nat) {tick : UInt32} {answers : List Answer} {g : Gpio}
    (h : g.answers = noData tick ++ answers) : ∃ g', g'.answers = answers ∧
      waitReceive deadline (fuel + 1) g =
        if deadline < tick then .error (.err (.timeout .receive)) g' else waitReceive deadline fuel g' := by
  obtain ⟨g', left, _, _, turn⟩ := waitReceive_none deadline fuel (r := { tick }) h le_rfl rfl
  exact ⟨g', left, turn⟩

theorem waitReceive_noData (deadline : UInt32) {ticks : List UInt32} {fuel : Nat} {g : Gpio}
    (h : g.answers = ticks.flatMap noData) (enough : ticks.length < fuel) :
    match ticks.findIdx? (deadline < ·) with
    | none => Fails .starved (waitReceive deadline fuel) g
    | some k => ∃ g', waitReceive deadline fuel g = .error (.err (.timeout .receive)) g' ∧
        g'.answers = (ticks.drop (k + 1)).flatMap noData := by
  induction ticks generalizing g fuel with
  | nil =>
    obtain ⟨n, rfl⟩ : ∃ n, fuel = n + 1 := ⟨fuel - 1, by simp only [List.length_nil] at enough; omega⟩
    exact ⟨g, bind_of_error (bind_of_error (call_starved h))⟩
  | cons tick ticks ih =>
    rw [List.length_cons] at enough
    obtain ⟨n, rfl⟩ : ∃ n, fuel = n + 1 := ⟨fuel - 1, by omega⟩
    obtain ⟨g', later, check⟩ := waitReceive_check deadline n h
    rw [List.findIdx?_cons]
    by_cases late : deadline < tick
    · rw [if_pos late] at check
      simp only [late, decide_true, ↓reduceIte]
      exact ⟨g', check, later⟩
    · rw [if_neg late] at check
      have rest := ih later (show ticks.length < n by omega)
      simp only [late, decide_false, Bool.false_eq_true, ↓reduceIte, check, Fails]
      cases first : ticks.findIdx? (deadline < ·) with
      | none => simpa [first, Fails] using rest
      | some k => simpa [first] using rest

theorem reportedAt_eq (deadline : UInt32) (ticks : List UInt32) (g : Gpio) :
    reportedAt deadline ticks g = ticks.findIdx? (deadline < ·) := by
  have enough : ticks.length < (ticks.flatMap noData).length + 1 := by
    rw [noData_length]
    omega
  have ended := waitReceive_noData deadline (g := { g with answers := ticks.flatMap noData }) rfl enough
  unfold reportedAt
  dsimp only
  cases first : ticks.findIdx? (deadline < ·) with
  | none =>
    rw [first] at ended
    obtain ⟨g', ended⟩ := ended
    rw [ended]
  | some k =>
    rw [first] at ended
    obtain ⟨g', ended, left⟩ := ended
    obtain ⟨inside, -, -⟩ := List.findIdx?_eq_some_iff_getElem.mp first
    rw [ended]
    dsimp only
    rw [left, noData_length, List.length_drop]
    congr 1
    omega

/-- Two searches stop at the same place if their tests agree as far as the second one gets. -/
theorem findIdx?_eq_iff {α : Type} {p q : α → Bool} (xs : List α) :
    xs.findIdx? p = xs.findIdx? q ↔
      ∀ before x after, xs = before ++ x :: after → (∀ y ∈ before, q y = false) → p x = q x := by
  induction xs with
  | nil => simp
  | cons x xs ih =>
    rw [List.findIdx?_cons, List.findIdx?_cons]
    have first : (∀ before y after, x :: xs = before ++ y :: after → (∀ z ∈ before, q z = false) → p y = q y) ↔
        p x = q x ∧ (q x = false → ∀ before y after, xs = before ++ y :: after →
          (∀ z ∈ before, q z = false) → p y = q y) := by
      constructor
      · intro agree
        refine ⟨agree [] x xs rfl (by simp), fun no before y after cut none => ?_⟩
        exact agree (x :: before) y after (by rw [cut]; rfl) (List.forall_mem_cons.mpr ⟨no, none⟩)
      · rintro ⟨same, rest⟩ before y after cut none
        cases before with
        | nil =>
          cases cut
          exact same
        | cons z before =>
          cases cut
          exact rest (none x (by simp)) before y after rfl fun z mem => none z (by simp [mem])
    rw [first, ← ih]
    have next := (Option.map_injective (add_left_injective 1)).eq_iff (a := xs.findIdx? p) (b := xs.findIdx? q)
    cases p x <;> cases q x <;> simp [next]

/-- Sums are in the order of their second summands if both of them wrap or neither does. -/
theorem add_lt_add_iff (t0 timeout e : UInt32) : (t0 + timeout < t0 + e ↔ timeout < e) ↔
    (2 ^ 32 ≤ t0.toNat + e.toNat ↔ 2 ^ 32 ≤ t0.toNat + timeout.toNat) := by
  have := timeout.toNat_lt
  have := e.toNat_lt
  have := t0.toNat_lt
  rw [UInt32.lt_iff_toNat_lt, UInt32.lt_iff_toNat_lt, UInt32.toNat_add, UInt32.toNat_add]
  omega

/-- The timeout is reported at the first late check exactly if the clock has wrapped at
each check up to there when the deadline has, and only then. -/
theorem reportedAt_first_late_iff (t0 timeout : UInt32) (es : List UInt32) (g : Gpio) :
    reportedAt (t0 + timeout) (es.map (t0 + ·)) g = es.findIdx? (timeout < ·) ↔
      ∀ before e after, es = before ++ e :: after → (∀ d ∈ before, d ≤ timeout) →
        (2 ^ 32 ≤ t0.toNat + e.toNat ↔ 2 ^ 32 ≤ t0.toNat + timeout.toNat) := by
  rw [reportedAt_eq, List.findIdx?_map, findIdx?_eq_iff]
  simp only [← add_lt_add_iff, Function.comp_apply, decide_eq_decide, decide_eq_false_iff_not, UInt32.not_lt]

/-- The clock wraps between the deadline and the first check after it. -/
theorem clockWraps_silent :
    reportedAt (4294667000 + 300000) ([200, 150000, 299900, 300500, 300601].map (4294667000 + ·))
        { buf := Vector.replicate bufSize 0, response := [], answers := [] } ≠
      [200, 150000, 299900, 300500, 300601].findIdx? ((300000 : UInt32) < ·) := by
  decide +kernel

end GpioMdb

end Vender
