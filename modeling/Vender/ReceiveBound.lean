import Vender.ReceiveTimeout

namespace Vender

namespace GpioMdb

open Effects

/-- The first reads of a sequence of them. -/
def firstReads (reads : Nat → Answer) (n : Nat) : List Answer := (List.range n).map reads

/-- The receive loop from the words that are in the buffer, while these reads last. -/
def receiveFrom (deadline : UInt32) (received_count : Nat) (rs : List Answer) (g : Gpio) :
    EStateM.Result Stop Gpio UInt8 :=
  let answers := rs.flatMap readAnswers
  receiveLoop deadline (answers.length + 1) received_count { g with answers }

/-- A program that has come to `Ok` or `Err` with this response. -/
def Ended {α : Type} (r : EStateM.Result Stop Gpio α) (response : List UInt8) : Prop :=
  match r with
  | .ok _ g | .error (.err _) g => g.response = response
  | .error .panic _ | .error .starved _ => False

/-- The loop ends, after no more data bytes than a block has. -/
def EndsInBlock (deadline : UInt32) (received_count : Nat) (reads : Nat → Answer) (g : Gpio) : Prop :=
  ∃ n accepted, Ended (receiveFrom deadline received_count (firstReads reads n) g) (g.response ++ accepted) ∧
    accepted.length ≤ blockMaxLength

/-- The words that the loop visits after a read. -/
def readWords (buf : Vector UInt8 bufSize) (r : Answer) : List (UInt8 × UInt8) :=
  receivedWords (overwrite buf r.data) (min r.data.length bufSize)

def wordsOf (buf : Vector UInt8 bufSize) : List Answer → List (UInt8 × UInt8)
  | [] => []
  | r :: rs => readWords buf r ++ wordsOf (overwrite buf r.data) rs

/-- The read fails, or finds nothing when the time is over. -/
def GivesUp (deadline : UInt32) (r : Answer) : Prop := r.rc < 0 ∨ r.data = [] ∧ deadline < r.tick

instance (deadline : UInt32) (r : Answer) : Decidable (GivesUp deadline r) := inferInstanceAs (Decidable (_ ∨ _ ∧ _))

/-- The words taken for data when the loop ends, if it ends in these reads. -/
def taken (deadline : UInt32) :
    Vector UInt8 bufSize → List (UInt8 × UInt8) → List Answer → Option (List (UInt8 × UInt8))
  | _, ws, [] => if (endByte ws).isSome then some (beforeEnd ws) else none
  | buf, ws, r :: rs =>
    if (endByte ws).isSome then some (beforeEnd ws)
    else if GivesUp deadline r then some ws
    else (taken deadline (overwrite buf r.data) (readWords buf r) rs).map (ws ++ ·)

theorem readWords_empty (buf : Vector UInt8 bufSize) {r : Answer} (empty : r.data = []) : readWords buf r = [] := by
  simp [readWords, receivedWords, empty]

theorem taken_nil_words {deadline : UInt32} {buf : Vector UInt8 bufSize} {ws : List (UInt8 × UInt8)}
    (noEnd : endByte ws = none) (rs : List Answer) :
    taken deadline buf ws rs = (taken deadline buf [] rs).map (ws ++ ·) := by
  have nothing : endByte [] = none := rfl
  cases rs with
  | nil => simp [taken, noEnd, nothing]
  | cons r rs =>
    by_cases gives : GivesUp deadline r
    · simp [taken, noEnd, nothing, gives]
    · simp [taken, noEnd, nothing, gives]

theorem taken_more {deadline : UInt32} {r : Answer} (waits : ¬ GivesUp deadline r) (buf : Vector UInt8 bufSize)
    (rs : List Answer) :
    taken deadline buf [] (r :: rs) = taken deadline (overwrite buf r.data) (readWords buf r) rs := by
  have nothing : endByte [] = none := rfl
  simp [taken, nothing, waits]

/-- The loop waits for its next words. -/
def waitLoop (deadline : UInt32) (turns fuel : Nat) : GpioM UInt8 := do
  let n ← waitReceive deadline turns
  receiveLoop deadline fuel n

/-- From this state the program comes to an end with these words behind the response, or waits for more reads. -/
def Comes (ws : Option (List (UInt8 × UInt8))) (m : GpioM UInt8) (g : Gpio) : Prop :=
  match ws with
  | none => Fails .starved m g
  | some ws => Ended (m g) (g.response ++ ws.map Prod.fst)

theorem comes_of_eq {m m' : GpioM UInt8} {g g' : Gpio} {ws : Option (List (UInt8 × UInt8))} (same : m g = m' g')
    (response : g.response = g'.response) (h : Comes ws m' g') : Comes ws m g := by
  cases ws with
  | none => simpa [Comes, Fails, same] using h
  | some ws => simpa [Comes, same, response] using h

/-- The words in the buffer come first, and those of later reads behind them. -/
theorem receiveLoop_comes {deadline : UInt32} {n fuel : Nat} {rs : List Answer} {g : Gpio}
    (waits : ∀ g', g'.buf = g.buf → g'.answers = g.answers →
      Comes (taken deadline g.buf [] rs) (waitLoop deadline (g.answers.length + 1) fuel) g') :
    Comes (taken deadline g.buf (receivedWords g.buf n) rs) (receiveLoop deadline (fuel + 1) n) g := by
  generalize words : receivedWords g.buf n = ws
  cases found : endByte ws with
  | some end_byte =>
    have done : receiveLoop deadline (fuel + 1) n g =
        .ok end_byte { g with response := g.response ++ (beforeEnd ws).map Prod.fst } := by
      rw [receiveLoop, bind_of_ok (get_ok g), bind_of_ok (takeWords_eq _ g), words, found]
      rfl
    have all : taken deadline g.buf ws rs = some (beforeEnd ws) := by
      cases rs <;> simp [taken, found]
    rw [all, Comes, done]
    rfl
  | none =>
    have next : receiveLoop deadline (fuel + 1) n g = waitLoop deadline (g.answers.length + 1) fuel
        { g with response := g.response ++ ws.map Prod.fst } := by
      rw [receiveLoop, bind_of_ok (get_ok g), bind_of_ok (takeWords_eq _ g), words, found, beforeEnd_of_none found]
      rfl
    have later := waits { g with response := g.response ++ ws.map Prod.fst } rfl rfl
    rw [taken_nil_words found]
    cases rest : taken deadline g.buf [] rs with
    | none => simpa [Comes, Fails, rest, next] using later
    | some vs => simpa [Comes, rest, next] using later

theorem readAnswers_length (rs : List Answer) : rs.length ≤ (rs.flatMap readAnswers).length := by
  induction rs with
  | nil => simp
  | cons r rs ih =>
    rw [List.flatMap_cons, List.length_append, readAnswers, List.length_cons, List.length_cons]
    omega

/-- The induction is on the reads: an empty one is a turn of `wait_receive`, any other one
a turn of the loop. -/
theorem waitLoop_comes {deadline : UInt32} {rs : List Answer} {turns fuel : Nat} {g : Gpio}
    (h : g.answers = rs.flatMap readAnswers) (enough : rs.length < turns) (last : rs.length ≤ fuel) :
    Comes (taken deadline g.buf [] rs) (waitLoop deadline turns fuel) g := by
  have nothing : endByte [] = none := rfl
  induction rs generalizing g turns fuel with
  | nil =>
    obtain ⟨k, rfl⟩ : ∃ k, turns = k + 1 := ⟨turns - 1, by omega⟩
    exact ⟨g, bind_of_error (bind_of_error (bind_of_error (call_starved h)))⟩
  | cons r rs ih =>
    rw [List.length_cons] at enough last
    obtain ⟨k, rfl⟩ : ∃ k, turns = k + 1 := ⟨turns - 1, by omega⟩
    obtain ⟨j, rfl⟩ : ∃ j, fuel = j + 1 := ⟨fuel - 1, by omega⟩
    rw [List.flatMap_cons] at h
    by_cases failed : r.rc < 0
    · have gives : GivesUp deadline r := Or.inl failed
      have refused : waitLoop deadline (k + 1) (j + 1) g = .error (.err (.pigpio r.rc)) _ :=
        bind_of_error (bind_of_error ((bind_of_ok (call_cons h)).trans (bind_of_error (check_of_neg failed _))))
      simp [taken, nothing, gives, Comes, Ended, refused]
    · have accepted : 0 ≤ r.rc := by omega
      by_cases empty : r.data = []
      · obtain ⟨g', left, buf, response, turn⟩ := waitReceive_none deadline k h accepted empty
        by_cases late : deadline < r.tick
        · have gives : GivesUp deadline r := Or.inr ⟨empty, late⟩
          rw [if_pos late] at turn
          have refused : waitLoop deadline (k + 1) (j + 1) g = .error (.err (.timeout .receive)) g' :=
            bind_of_error turn
          simp [taken, nothing, gives, Comes, Ended, refused, response]
        · have waits : ¬ GivesUp deadline r := by simp [GivesUp, failed, late]
          rw [if_neg late] at turn
          have same : waitLoop deadline (k + 1) (j + 1) g = waitLoop deadline k (j + 1) g' := bind_of_eq turn _
          have rest := ih left (show rs.length < k by omega) (show rs.length ≤ j + 1 by omega)
          rw [taken_more waits, readWords_empty _ empty, ← buf]
          exact comes_of_eq same response.symm rest
      · obtain ⟨g', left, buf, response, turn⟩ := waitReceive_some deadline k h accepted empty
        have waits : ¬ GivesUp deadline r := by simp [GivesUp, failed, empty]
        have next : waitLoop deadline (k + 1) (j + 1) g =
          receiveLoop deadline (j + 1) (min r.data.length bufSize) g' :=
          bind_of_ok turn
        rw [taken_more waits]
        refine comes_of_eq next response.symm ?_
        have words : readWords g.buf r = receivedWords g'.buf (min r.data.length bufSize) := by rw [readWords, buf]
        have room := readAnswers_length rs
        rw [words, ← buf]
        refine receiveLoop_comes fun g₂ buf₂ answers₂ => ?_
        rw [← buf₂]
        exact ih (answers₂.trans left) (by rw [left]; omega) (by omega)

theorem receiveFrom_comes (deadline : UInt32) (n : Nat) (rs : List Answer) (g : Gpio) :
    match taken deadline g.buf (receivedWords g.buf n) rs with
    | none => ∃ g', receiveFrom deadline n rs g = .error .starved g'
    | some ws => Ended (receiveFrom deadline n rs g) (g.response ++ ws.map Prod.fst) := by
  have room := readAnswers_length rs
  have comes : Comes (taken deadline g.buf (receivedWords g.buf n) rs)
      (receiveLoop deadline ((rs.flatMap readAnswers).length + 1) n)
        { g with answers := rs.flatMap readAnswers } := by
    refine receiveLoop_comes (g := { g with answers := rs.flatMap readAnswers }) fun g' buf answers => ?_
    have waits : Comes (taken deadline g'.buf [] rs)
        (waitLoop deadline ((rs.flatMap readAnswers).length + 1) (rs.flatMap readAnswers).length) g' :=
      waitLoop_comes answers (by omega) room
    rwa [buf] at waits
  cases found : taken deadline g.buf (receivedWords g.buf n) rs with
  | none =>
    rw [found] at comes
    exact comes
  | some ws =>
    rw [found] at comes
    exact comes

/-- The loop ends in these reads: a word with the ninth bit has come, or the next read gives up. -/
def Closes (deadline : UInt32) (buf : Vector UInt8 bufSize) (ws : List (UInt8 × UInt8))
    (before after : List Answer) : Prop :=
  (endByte (ws ++ wordsOf buf before)).isSome ∨ ∃ r ∈ after.head?, GivesUp deadline r

theorem closes_of_taken {deadline : UInt32} {buf : Vector UInt8 bufSize} {ws all : List (UInt8 × UInt8)}
    {rs : List Answer}
    (h : taken deadline buf ws rs = some all) :
    ∃ before after, rs = before ++ after ∧ Closes deadline buf ws before after ∧
      all = beforeEnd (ws ++ wordsOf buf before) := by
  induction rs generalizing buf ws all with
  | nil =>
    rw [taken] at h
    split at h
    next found =>
      cases Option.some.inj h
      exact ⟨[], [], rfl, Or.inl (by simpa [wordsOf] using found), by simp [wordsOf]⟩
    next => cases h
  | cons r rs ih =>
    rw [taken] at h
    split at h
    next found =>
      cases Option.some.inj h
      exact ⟨[], r :: rs, rfl, Or.inl (by simpa [wordsOf] using found), by simp [wordsOf]⟩
    next none_found =>
      have noEnd : endByte ws = none := by simpa using none_found
      split at h
      next gives =>
        cases Option.some.inj h
        exact ⟨[], r :: rs, rfl, Or.inr ⟨r, rfl, gives⟩, by simp [wordsOf, beforeEnd_of_none noEnd]⟩
      next =>
        obtain ⟨more, later, rfl⟩ := Option.map_eq_some_iff.mp h
        obtain ⟨before, after, rfl, closes, rfl⟩ := ih later
        refine ⟨r :: before, after, rfl, ?_, ?_⟩
        · rcases closes with found | gives
          · exact Or.inl (by rw [wordsOf, endByte_append noEnd]; exact found)
          · exact Or.inr gives
        · rw [wordsOf, beforeEnd_append noEnd, beforeEnd_of_none noEnd]

theorem beforeEnd_le_append (ws vs : List (UInt8 × UInt8)) : beforeEnd ws <+: beforeEnd (ws ++ vs) := by
  rw [beforeEnd, beforeEnd, List.takeWhile_append]
  split
  next => exact (List.takeWhile_prefix _).trans (List.prefix_append _ _)
  next => exact List.prefix_rfl

/-- If the loop has a reason to end somewhere, it ends there or before. -/
theorem taken_of_closes {deadline : UInt32} {buf : Vector UInt8 bufSize} {ws : List (UInt8 × UInt8)}
    {before after : List Answer} (h : Closes deadline buf ws before after) :
    ∃ all, taken deadline buf ws (before ++ after) = some all ∧
      all.length ≤ (beforeEnd (ws ++ wordsOf buf before)).length := by
  have at_end {buf : Vector UInt8 bufSize} {ws : List (UInt8 × UInt8)} (found : (endByte ws).isSome)
    (rs : List Answer) :
      taken deadline buf ws rs = some (beforeEnd ws) := by
    cases rs <;> rw [taken, if_pos found]
  induction before generalizing buf ws with
  | nil =>
    by_cases found : (endByte ws).isSome
    · exact ⟨beforeEnd ws, at_end found _, (beforeEnd_le_append ws _).length_le⟩
    · rcases h with inWords | ⟨r, next, gives⟩
      · exact absurd (by simpa [wordsOf] using inWords) found
      · obtain ⟨rest, rfl⟩ : ∃ rest, after = r :: rest := List.head?_eq_some_iff.mp next
        refine ⟨ws, by rw [List.nil_append, taken, if_neg found, if_pos gives], ?_⟩
        rw [wordsOf, List.append_nil, beforeEnd_of_none (by simpa using found)]
  | cons r before ih =>
    by_cases found : (endByte ws).isSome
    · exact ⟨beforeEnd ws, at_end found _, (beforeEnd_le_append ws _).length_le⟩
    · have noEnd : endByte ws = none := by simpa using found
      rw [List.cons_append, taken, if_neg found, beforeEnd_append noEnd, beforeEnd_of_none noEnd, List.length_append]
      by_cases gives : GivesUp deadline r
      · exact ⟨ws, by rw [if_pos gives], Nat.le_add_right _ _⟩
      · have later : Closes deadline (overwrite buf r.data) (readWords buf r) before after := by
          rcases h with inWords | next
          · exact Or.inl (by rwa [wordsOf, endByte_append noEnd] at inWords)
          · exact Or.inr next
        obtain ⟨all, taken, short⟩ := ih later
        refine ⟨ws ++ all, by rw [if_neg gives, taken, Option.map_some], ?_⟩
        rw [List.length_append]
        exact Nat.add_le_add_left short _

theorem firstReads_succ (reads : Nat → Answer) (k : Nat) :
    firstReads reads (k + 1) = firstReads reads k ++ [reads k] := by
  rw [firstReads, List.range_succ, List.map_append]
  rfl

theorem firstReads_cut {reads : Nat → Answer} {n : Nat} {before after : List Answer}
    (cut : firstReads reads n = before ++ after) :
    before = firstReads reads before.length ∧ ∀ r ∈ after.head?, r = reads before.length := by
  have length := congrArg List.length cut
  rw [firstReads, List.length_map, List.length_range, List.length_append] at length
  constructor
  · calc before = (before ++ after).take before.length := (List.take_left).symm
      _ = (firstReads reads n).take before.length := by rw [cut]
      _ = firstReads reads before.length := by
        rw [firstReads, ← List.map_take, List.take_range, Nat.min_eq_left (by omega), firstReads]
  · intro r next
    have at_cut : (before ++ after)[before.length]? = some r := by
      rw [List.getElem?_append_right (Nat.le_refl _), Nat.sub_self, ← List.head?_eq_getElem?]
      exact next
    rw [← cut, firstReads, List.getElem?_map, Option.map_eq_some_iff] at at_cut
    obtain ⟨i, range, rfl⟩ := at_cut
    obtain ⟨_, rfl⟩ := List.getElem?_eq_some_iff.mp range
    rw [List.getElem_range]

theorem Ended.unique {α : Type} {r : EStateM.Result Stop Gpio α} {x y : List UInt8} (hx : Ended r x)
    (hy : Ended r y) :
    x = y := by
  unfold Ended at hx hy
  split at hx
  · exact hx.symm.trans hy
  · exact hx.symm.trans hy
  · exact hx.elim
  · exact hx.elim

/-- The loop ends with a block exactly if some read fails, comes empty when the time is over
or is preceded by a word with the ninth bit, and up to there no more words than a block has
come in front of the first one with that bit. -/
theorem endsInBlock_iff (deadline : UInt32) (received_count : Nat) (reads : Nat → Answer) (g : Gpio) :
    EndsInBlock deadline received_count reads g ↔
      ∃ k, ((endByte (receivedWords g.buf received_count ++ wordsOf g.buf (firstReads reads k))).isSome ∨
          GivesUp deadline (reads k)) ∧
        (beforeEnd (receivedWords g.buf received_count ++ wordsOf g.buf (firstReads reads k))).length ≤
          blockMaxLength := by
  constructor
  · rintro ⟨n, accepted, ended, short⟩
    have comes := receiveFrom_comes deadline received_count (firstReads reads n) g
    cases found : taken deadline g.buf (receivedWords g.buf received_count) (firstReads reads n) with
    | none =>
      rw [found] at comes
      obtain ⟨g', starved⟩ := comes
      rw [starved] at ended
      exact ended.elim
    | some all =>
      rw [found] at comes
      obtain ⟨before, after, cut, closes, rfl⟩ := closes_of_taken found
      obtain ⟨first, next⟩ := firstReads_cut cut
      have same := congrArg List.length (List.append_cancel_left (Ended.unique ended comes))
      rw [List.length_map] at same
      refine ⟨before.length, ?_, by rw [← first, ← same]; exact short⟩
      rw [← first]
      rcases closes with inWords | ⟨r, head, gives⟩
      · exact Or.inl inWords
      · exact Or.inr (by rwa [← next r head])
  · rintro ⟨k, closes, short⟩
    have here : Closes deadline g.buf (receivedWords g.buf received_count) (firstReads reads k) [reads k] := by
      rcases closes with inWords | gives
      · exact Or.inl inWords
      · exact Or.inr ⟨reads k, rfl, gives⟩
    obtain ⟨all, found, fewer⟩ := taken_of_closes here
    rw [← firstReads_succ] at found
    have comes := receiveFrom_comes deadline received_count (firstReads reads (k + 1)) g
    rw [found] at comes
    exact ⟨k + 1, all.map Prod.fst, comes, by rw [List.length_map]; exact fewer.trans short⟩

/-- A line on which one byte after the other comes, without the ninth bit. -/
def babble (k : Nat) : Answer where
  data := [0x55, 0]
  tick := UInt32.ofNat k

/-- The first of them is read. -/
def babbled : Gpio where
  buf := overwrite (Vector.replicate bufSize 0) [0x55, 0]
  response := []
  answers := []

theorem readWords_babble (buf : Vector UInt8 bufSize) (k : Nat) : readWords buf (babble k) = [(0x55, 0)] := by
  have even : [(0x55 : UInt8), 0].length % 2 = 0 := by decide
  have fits : [(0x55 : UInt8), 0].length ≤ bufSize := by decide
  exact receivedWords_overwrite buf even fits

theorem wordsOf_babble (buf : Vector UInt8 bufSize) (ks : List Nat) :
    endByte (wordsOf buf (ks.map babble)) = none := by
  induction ks generalizing buf with
  | nil => rfl
  | cons k ks ih =>
    rw [List.map_cons, wordsOf, readWords_babble, endByte_append rfl]
    exact ih _

/-- The loop takes one byte after the other and never looks at its deadline. -/
theorem babble_never_ends : ¬ EndsInBlock timeoutReceiveUs 2 babble babbled := by
  rintro ⟨n, accepted, ended, _⟩
  have first : receivedWords babbled.buf 2 = [(0x55, 0)] := readWords_babble _ 0
  have comes := receiveFrom_comes timeoutReceiveUs 2 (firstReads babble n) babbled
  cases found : taken timeoutReceiveUs babbled.buf (receivedWords babbled.buf 2) (firstReads babble n) with
  | none =>
    rw [found] at comes
    obtain ⟨g', starved⟩ := comes
    rw [starved] at ended
    exact ended
  | some all =>
    obtain ⟨before, after, cut, inWords | ⟨r, next, gives⟩, _⟩ := closes_of_taken found
    · rw [(firstReads_cut cut).1, first, endByte_append rfl, firstReads, wordsOf_babble] at inWords
      cases inWords
    · rw [(firstReads_cut cut).2 r next] at gives
      rcases gives with failed | ⟨empty, _⟩
      · exact absurd failed (Int.lt_irrefl 0)
      · cases empty

end GpioMdb

end Vender
