import Vender.Lib.Runs
import Vender.Mega.RoundTrip

namespace Vender.Mega

open Firmware (crc8P93N)

def frame (rq : List UInt8) : List UInt8 :=
  let packet := UInt8.ofNat (rq.length + 2) :: rq
  packet ++ [crc8P93N 0 packet]

/-- A response of the firmware and the number of the command it answers, `none`
for one that comes of itself. -/
structure Posted where
  answer : Firmware.Answer
  command : Option Nat

def encodeAll (ps : List Posted) : List UInt8 := ps.flatMap fun p => p.answer.encode

structure Tx where
  rq : List UInt8
  rs : List UInt8
  ps : List Packet
  e : Outcome
  deriving DecidableEq

/-- The firmware's double buffer and the one `Client.Do` in progress. -/
structure Bus where
  /-- `twi_out`: what the next read takes. -/
  ready : List Posted := []
  /-- `master_out`. -/
  later : List Posted := []
  written : List (List UInt8) := []
  /-- The request of a `Do` between its write and its read. -/
  waiting : Option (List UInt8) := none
  /-- History: every response that has been ready. -/
  shown : List Posted := []

/-- Atomic operations on the bus, and what the firmware does in between. A pin
edge may come at any time, a transfer on the bus raises the pin too. -/
inductive BusEvent
  | doWrite (rq : List UInt8)
  | doRead
  | runRead
  | respond (p : Posted)
  | swap

namespace Bus

/-- `RawRead` of `RESPONSE_MAX_LENGTH + 1` bytes; behind its last byte the bus stays high. -/
def rawRead (s : Bus) : List UInt8 :=
  UInt8.ofNat (encodeAll s.ready).length ::
    (encodeAll s.ready ++ List.replicate (80 - (encodeAll s.ready).length) 0xff)

def tx (s : Bus) (rq : List UInt8) : Tx where
  rq := rq
  rs := s.rawRead
  ps := (parseResponse s.rawRead).packets
  e := (parseResponse s.rawRead).outcome

def step (s : Bus) : BusEvent → Option Bus
  | .doWrite rq =>
    if s.waiting.isSome then none else some { s with written := s.written ++ [frame rq], waiting := some rq }
  | .doRead => s.waiting.map fun _ => { s with ready := [], waiting := none }
  | .runRead => some { s with ready := [] }
  | .respond p =>
    if (∀ k ∈ p.command, k < s.written.length) ∧ (encodeAll (s.later ++ [p])).length ≤ 80 then
      some { s with later := s.later ++ [p] }
    else none
  | .swap =>
    if s.ready = [] then some { s with ready := s.later, later := [], shown := s.shown ++ s.later } else none

def Own (s : Bus) (p : Posted) : Prop := p.command = some (s.written.length - 1)

/-- Whatever response to its own command has been ready before `Do` reads is
among the packets it returns. -/
def GetsOwn (s : Bus) (e : BusEvent) (_ : Bus) : Prop :=
  match e with
  | .doRead => ∀ rq ∈ s.waiting, ∀ p ∈ s.shown, s.Own p → toPacket p.answer ∈ (s.tx rq).ps
  | _ => True

/-- The notification does not read what the `Do` in progress waits for. -/
def LeavesOwn (s : Bus) (e : BusEvent) (_ : Bus) : Prop :=
  match e with
  | .runRead => s.waiting.isSome → ∀ p ∈ s.ready, ¬ s.Own p
  | _ => True

instance (s : Bus) (p : Posted) : Decidable (s.Own p) := inferInstanceAs (Decidable (_ = _))

instance (s : Bus) (e : BusEvent) (t : Bus) : Decidable (s.GetsOwn e t) :=
  match e with
  | .doRead =>
    inferInstanceAs (Decidable (∀ rq ∈ s.waiting, ∀ p ∈ s.shown, s.Own p → toPacket p.answer ∈ (s.tx rq).ps))
  | .doWrite _ | .runRead | .respond _ | .swap => isTrue trivial

instance (s : Bus) (e : BusEvent) (t : Bus) : Decidable (s.LeavesOwn e t) :=
  match e with
  | .runRead => inferInstanceAs (Decidable (s.waiting.isSome → ∀ p ∈ s.ready, ¬ s.Own p))
  | .doWrite _ | .doRead | .respond _ | .swap => isTrue trivial

structure Kept (s : Bus) : Prop where
  readyFits : (encodeAll s.ready).length ≤ 80
  laterFits : (encodeAll s.later).length ≤ 80
  shownKnown : ∀ p ∈ s.shown, ∀ k ∈ p.command, k < s.written.length
  laterKnown : ∀ p ∈ s.later, ∀ k ∈ p.command, k < s.written.length
  unread : s.waiting.isSome → ∀ p ∈ s.shown, s.Own p → p ∈ s.ready

theorem tx_ps {s : Bus} (fits : (encodeAll s.ready).length ≤ 80) (rq : List UInt8) :
    (s.tx rq).ps = s.ready.map fun p => toPacket p.answer := by
  have flat : encodeAll s.ready = (s.ready.map Posted.answer).flatMap Firmware.Answer.encode := by
    rw [encodeAll, List.flatMap_map]
  have size : (UInt8.ofNat (encodeAll s.ready).length).toNat = (encodeAll s.ready).length := by
    rw [UInt8.toNat_ofNat']
    omega
  have small : UInt8.ofNat (encodeAll s.ready).length ≤ responseMaxLength := by
    rw [UInt8.le_iff_toNat_le, size]
    exact fits
  have parsed := parseResponse_packets (List.replicate (80 - (encodeAll s.ready).length) 0xff) small
    (size.trans (congrArg List.length flat))
  rw [← flat] at parsed
  rw [tx, rawRead, parsed, List.map_map]
  rfl

theorem Kept.getsOwn {s t : Bus} {e : BusEvent} (h : s.Kept) : s.GetsOwn e t := by
  unfold GetsOwn
  split
  case h_2 => trivial
  intro rq waiting p shown own
  rw [tx_ps h.readyFits]
  have isSome : s.waiting.isSome := by
    rw [Option.mem_def.mp waiting]
    rfl
  exact List.mem_map_of_mem (h.unread isSome p shown own)

theorem Kept.step {s t : Bus} {e : BusEvent} (h : s.Kept) (hs : s.step e = some t) (leaves : s.LeavesOwn e t) :
    t.Kept := by
  have empty : (encodeAll []).length ≤ 80 := by simp [encodeAll]
  cases e with
  | doWrite rq =>
    simp only [Bus.step] at hs
    split at hs
    next => cases hs
    next =>
      cases Option.some.inj hs
      refine ⟨h.readyFits, h.laterFits, fun p mem k hk => ?_, fun p mem k hk => ?_, fun _ p mem own => ?_⟩
      · have := h.shownKnown p mem k hk
        simp only [List.length_append, List.length_singleton]
        omega
      · have := h.laterKnown p mem k hk
        simp only [List.length_append, List.length_singleton]
        omega
      · -- nobody can have answered the command that is written just now
        have before := h.shownKnown p mem _ own
        simp only [List.length_append, List.length_singleton] at before
        omega
  | doRead =>
    obtain ⟨_, _, rfl⟩ := Option.map_eq_some_iff.mp hs
    exact ⟨empty, h.laterFits, h.shownKnown, h.laterKnown, fun waiting => by cases waiting⟩
  | runRead =>
    cases Option.some.inj hs
    refine ⟨empty, h.laterFits, h.shownKnown, h.laterKnown, fun waiting p mem own => ?_⟩
    exact absurd own (leaves waiting p (h.unread waiting p mem own))
  | respond p =>
    simp only [Bus.step] at hs
    split at hs
    next allowed =>
      cases Option.some.inj hs
      refine ⟨h.readyFits, allowed.2, h.shownKnown, fun q mem => ?_, h.unread⟩
      rcases List.mem_append.mp mem with before | new
      · exact h.laterKnown q before
      · cases List.mem_singleton.mp new
        exact allowed.1
    next => cases hs
  | swap =>
    simp only [Bus.step] at hs
    split at hs
    next drained =>
      cases Option.some.inj hs
      refine ⟨h.laterFits, empty, fun p mem => ?_, by simp, fun waiting p mem own => ?_⟩
      · rcases List.mem_append.mp mem with before | new
        · exact h.shownKnown p before
        · exact h.laterKnown p new
      · rcases List.mem_append.mp mem with before | new
        · have ready := h.unread waiting p before own
          rw [drained] at ready
          cases ready
        · exact new
    next => cases hs

theorem kept_start : Kept {} where
  readyFits := by simp [encodeAll]
  laterFits := by simp [encodeAll]
  shownKnown := by simp
  laterKnown := by simp
  unread := by simp

/-- Over every interleaving in which no notification reads what a `Do` waits for,
every `Do` returns the response to its own command. -/
theorem getsOwn_along {es : List BusEvent} (leaves : Runs.Along step LeavesOwn {} es) :
    Runs.Along step GetsOwn {} es :=
  Runs.along_of_invariant (fun _ _ _ hs kept leaves => ⟨kept.getsOwn, kept.step hs leaves⟩) kept_start leaves

def respondsInTime (between : List BusEvent) : List BusEvent :=
  [.doWrite [0x08, 0x0b], .respond ⟨⟨.mdbStarted, [], by simp⟩, some 0⟩, .swap] ++ between ++ [.doRead]

theorem respondsInTime_getsOwn : Runs.Along step GetsOwn {} (respondsInTime []) := by
  apply getsOwn_along
  decide +kernel

/-- The notification comes while `Do` sleeps: its read takes the response. -/
theorem notification_takes_response : ¬ Runs.Along step GetsOwn {} (respondsInTime [.runRead]) := by
  decide +kernel

end Bus
end Vender.Mega
