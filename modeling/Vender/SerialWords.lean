import Vender.OwnRequest

namespace Vender

namespace GpioMdb

open Effects

/-- The words in what one `gpioSerialRead` copied. -/
def wordsIn : List UInt8 → List (UInt8 × UInt8)
  | value :: flag :: rest => (value, flag) :: wordsIn rest
  | _ => []

def wordsRead (reads : List (List UInt8)) : List (UInt8 × UInt8) := reads.flatMap wordsIn

/-- The words in front of the one with the end flag. -/
def beforeEnd (ws : List (UInt8 × UInt8)) : List (UInt8 × UInt8) := ws.takeWhile fun w => w.2 ≠ 1

def endByte (ws : List (UInt8 × UInt8)) : Option UInt8 := (ws.find? fun w => w.2 = 1).map Prod.fst

@[simp] theorem wordsRead_append (xs ys : List (List UInt8)) :
    wordsRead (xs ++ ys) = wordsRead xs ++ wordsRead ys := by
  simp [wordsRead]

theorem wordsRead_replicate_nil (k : Nat) : wordsRead (List.replicate k []) = [] := by
  induction k with
  | zero => rfl
  | succ k ih =>
    rw [List.replicate_succ, ← List.singleton_append, wordsRead_append, ih]
    rfl

/-- Empty reads in front of the first one that returns something add no words. -/
theorem wordsRead_waited (k : Nat) (data : List UInt8) (more : List (List UInt8)) :
    wordsRead (List.replicate k [] ++ [data] ++ more) = wordsIn data ++ wordsRead more := by
  rw [wordsRead_append, wordsRead_append, wordsRead_replicate_nil]
  simp [wordsRead]

/-- Words as pigpio copies them. -/
def rawWords (ws : List (UInt8 × UInt8)) : List UInt8 := ws.flatMap fun w => [w.1, w.2]

@[simp] theorem rawWords_length (ws : List (UInt8 × UInt8)) : (rawWords ws).length = 2 * ws.length := by
  simp [rawWords, Nat.mul_comm]

@[simp] theorem wordsIn_rawWords (ws : List (UInt8 × UInt8)) : wordsIn (rawWords ws) = ws := by
  induction ws with
  | nil => rfl
  | cons w ws ih =>
    have rest : wordsIn (rawWords (w :: ws)) = w :: wordsIn (rawWords ws) := rfl
    rw [rest, ih]

theorem wordsIn_length (data : List UInt8) : (wordsIn data).length = data.length / 2 := by
  fun_induction wordsIn data with
  | case1 value flag rest ih =>
    simp only [List.length_cons, ih]
    omega
  | case2 data short =>
    match data with
    | [] => rfl
    | [_] => simp
    | value :: flag :: rest => exact absurd rfl (short value flag rest)

theorem wordsIn_getElem? (data : List UInt8) (i : Nat) (inside : 2 * i + 1 < data.length) :
    (wordsIn data)[i]? = some (data[2 * i], data[2 * i + 1]) := by
  induction i generalizing data with
  | zero =>
    match data with
    | [] => simp at inside
    | [_] => simp at inside
    | value :: flag :: rest => rfl
  | succ i ih =>
    match data with
    | [] => simp at inside
    | [_] => simp at inside
    | value :: flag :: rest =>
      have next : 2 * i + 1 < rest.length := by
        simp only [List.length_cons] at inside
        omega
      simpa [wordsIn, Nat.mul_add] using ih rest next

/-- The indices below the length of a list, in order, give its items. -/
theorem filter_finRange_map {α : Type} {n : Nat} {f : Fin n → α} {xs : List α} (fits : xs.length ≤ n)
    (item : ∀ i : Fin n, i.val < xs.length → xs[i.val]? = some (f i)) :
    ((List.finRange n).filter fun i => i.val < xs.length).map f = xs := by
  induction n generalizing xs with
  | zero =>
    have empty : xs = [] := List.length_eq_zero_iff.mp (by omega)
    simp [empty]
  | succ n ih =>
    cases xs with
    | nil => simp
    | cons x xs =>
      have first : x = f 0 := by simpa using item 0 (by simp)
      have rest : ((List.finRange n).filter fun i => i.val < xs.length).map (f ∘ Fin.succ) = xs := by
        refine ih (by simpa using fits) fun i below => ?_
        simpa using item i.succ (by simpa using below)
      have shifted : ((List.finRange n).filter fun i => i.succ.val < (x :: xs).length) =
          (List.finRange n).filter fun i => i.val < xs.length := by
        simp
      rw [List.finRange_succ, List.filter_cons_of_pos (by simp), List.map_cons, List.filter_map,
        List.map_map, ← first]
      exact congrArg (x :: ·) ((congrArg _ shifted).trans rest)

/-- After a read, the words that the loop visits are those the read returned. -/
theorem receivedWords_overwrite (base : Vector UInt8 bufSize) {data : List UInt8} (even : data.length % 2 = 0)
    (fits : data.length ≤ bufSize) : receivedWords (overwrite base data) data.length = wordsIn data := by
  have size := wordsIn_length data
  have bounded : (wordsIn data).length ≤ blockMaxLength := by
    simp only [bufSize, wordSize] at fits
    omega
  have visited : ∀ i : Fin blockMaxLength, wordSize * i.val < data.length ↔ i.val < (wordsIn data).length := by
    intro i
    simp only [wordSize]
    omega
  simp only [receivedWords, visited]
  refine filter_finRange_map bounded fun i below => ?_
  have inside : 2 * i.val + 1 < data.length := by omega
  rw [wordsIn_getElem? data i.val inside]
  simp [word, overwrite, wordSize, List.getElem?_eq_getElem inside,
    List.getElem?_eq_getElem (Nat.lt_of_succ_lt inside)]

theorem takeWords_eq (ws : List (UInt8 × UInt8)) (g : Gpio) :
    takeWords ws g = .ok (endByte ws) { g with response := g.response ++ (beforeEnd ws).map Prod.fst } := by
  induction ws generalizing g with
  | nil => simp [takeWords, endByte, beforeEnd, pure, EStateM.pure]
  | cons w ws ih =>
    by_cases flag : w.2 = 1
    · simp [takeWords, endByte, beforeEnd, flag, pure, EStateM.pure]
    · have skip : endByte (w :: ws) = endByte ws := by simp [endByte, flag]
      have keep : beforeEnd (w :: ws) = w :: beforeEnd ws := by simp [beforeEnd, flag]
      rw [takeWords, if_neg flag, bind_of_ok (modify_ok _ g), ih, skip, keep]
      simp

/-- What was read so far and what of it went into the response. -/
def heard (g : Gpio) : List (List UInt8) × List UInt8 := (g.reads, g.response)

theorem heard_eq_iff {g g' : Gpio} : heard g' = heard g ↔ g'.reads = g.reads ∧ g'.response = g.response :=
  Prod.mk.injEq _ _ _ _ ▸ Iff.rfl

theorem heard_admits : Admits (Keeps heard) := admits_keeps ⟨fun _ _ => rfl, fun _ _ => rfl⟩

theorem buf_admits : Admits (Keeps Gpio.buf) := admits_keeps ⟨fun _ _ => rfl, fun _ _ => rfl⟩

theorem overwrite_take (buf : Vector UInt8 bufSize) (data : List UInt8) :
    overwrite buf (data.take bufSize) = overwrite buf data := by
  ext j inside
  simp only [overwrite, Vector.getElem_ofFn, List.getElem?_take, if_pos inside]

theorem serialRead_ok {n : Nat} {g g' : Gpio} (h : serialRead g = .ok n g') :
    ∃ base data, data.length = n ∧ n ≤ bufSize ∧ g'.buf = overwrite base data ∧ g'.reads = g.reads ++ [data] ∧
      g'.response = g.response := by
  unfold serialRead at h
  obtain ⟨a, g₁, hcall, h⟩ := bind_eq_ok.mp h
  obtain ⟨_, g₂, hcheck, h⟩ := bind_eq_ok.mp h
  rw [bind_of_ok (modify_ok _ g₂)] at h
  obtain ⟨rfl, rfl⟩ := pure_eq_ok.mp h
  have before : heard g₂ = heard g :=
    calc heard g₂ = heard g₁ := (heard_admits.check _).of_ok hcheck
      _ = heard g := heard_admits.call.of_ok hcall
  obtain ⟨reads, response⟩ := heard_eq_iff.mp before
  refine ⟨g₂.buf, a.data.take bufSize, ?_, Nat.min_le_right _ _, (overwrite_take _ _).symm, ?_, response⟩
  · rw [List.length_take, Nat.min_comm]
  · exact congrArg (· ++ [a.data.take bufSize]) reads

/-- The wait ends with the first read that is not empty. -/
theorem waitReceive_ok {deadline : UInt32} {fuel n : Nat} {g g' : Gpio} (h : waitReceive deadline fuel g = .ok n g') :
    ∃ k base data, data.length = n ∧ n ≤ bufSize ∧ g'.buf = overwrite base data ∧
      g'.reads = g.reads ++ (List.replicate k [] ++ [data]) ∧ g'.response = g.response := by
  induction fuel generalizing g with
  | zero => exact absurd h throw_ne_ok
  | succ fuel ih =>
    unfold waitReceive at h
    obtain ⟨m, g₁, hread, h⟩ := bind_eq_ok.mp h
    obtain ⟨base, data, size, fits, buf, reads₁, response₁⟩ := serialRead_ok hread
    split at h
    next some_read =>
      obtain ⟨rfl, rfl⟩ := pure_eq_ok.mp h
      exact ⟨0, base, data, size, fits, buf, reads₁, response₁⟩
    next none_read =>
      obtain ⟨now, g₂, htick, h⟩ := bind_eq_ok.mp h
      split at h
      next => exact absurd h throw_ne_ok
      next =>
        obtain ⟨k, base', data', size', fits', buf', reads₃, response₃⟩ := ih h
        obtain ⟨reads₂, response₂⟩ := heard_eq_iff.mp ((heard_admits.tickSince 0).of_ok htick)
        have empty : data = [] := List.length_eq_zero_iff.mp (by omega)
        refine ⟨k + 1, base', data', size', fits', buf', ?_, response₃.trans (response₂.trans response₁)⟩
        rw [reads₃, reads₂, reads₁, empty, List.replicate_succ]
        simp

theorem beforeEnd_of_none {ws : List (UInt8 × UInt8)} (noEnd : endByte ws = none) : beforeEnd ws = ws := by
  have clear : ∀ w ∈ ws, w.2 ≠ 1 := by simpa [endByte] using noEnd
  exact List.takeWhile_eq_self_iff.mpr (by simpa using clear)

theorem beforeEnd_append {ws : List (UInt8 × UInt8)} (noEnd : endByte ws = none) (ws' : List (UInt8 × UInt8)) :
    beforeEnd (ws ++ ws') = beforeEnd ws ++ beforeEnd ws' := by
  have clear : ∀ w ∈ ws, w.2 ≠ 1 := by simpa [endByte] using noEnd
  rw [beforeEnd_of_none noEnd, beforeEnd, List.takeWhile_append_of_pos (by simpa using clear)]
  rfl

theorem endByte_append {ws : List (UInt8 × UInt8)} (noEnd : endByte ws = none) (ws' : List (UInt8 × UInt8)) :
    endByte (ws ++ ws') = endByte ws' := by
  have clear : ws.find? (fun w => w.2 = 1) = none := by simpa [endByte] using noEnd
  simp [endByte, List.find?_append, clear]

/-- What the loop returns is read off the words it began with and those of its
own reads, as one sequence. -/
theorem receiveLoop_ok {deadline : UInt32} {fuel n : Nat} {g g' : Gpio} {end_byte : UInt8}
    (h : receiveLoop deadline fuel n g = .ok end_byte g') :
    ∃ more, g'.reads = g.reads ++ more ∧ ((∀ data ∈ more, data.length % 2 = 0) →
      endByte (receivedWords g.buf n ++ wordsRead more) = some end_byte ∧
      g'.response = g.response ++ (beforeEnd (receivedWords g.buf n ++ wordsRead more)).map Prod.fst) := by
  induction fuel generalizing g n with
  | zero => exact absurd h throw_ne_ok
  | succ fuel ih =>
    unfold receiveLoop at h
    rw [bind_of_ok (get_ok g), bind_of_ok (takeWords_eq _ g)] at h
    cases found : endByte (receivedWords g.buf n) with
    | some b =>
      rw [found] at h
      obtain ⟨rfl, rfl⟩ := pure_eq_ok.mp h
      exact ⟨[], by simp, fun _ => by simp [wordsRead, found]⟩
    | none =>
      rw [found] at h
      dsimp only at h
      rw [bind_of_ok (get_ok _)] at h
      obtain ⟨m, g₁, hwait, h⟩ := bind_eq_ok.mp h
      obtain ⟨k, base, data, size, fits, buf, reads₁, response₁⟩ := waitReceive_ok hwait
      obtain ⟨more, reads, spec⟩ := ih h
      refine ⟨List.replicate k [] ++ [data] ++ more, by simp [reads, reads₁], fun even => ?_⟩
      have own := even data (by simp)
      obtain ⟨last, response⟩ := spec fun data' mem => even data' (by simp [mem])
      have words : receivedWords g₁.buf m = wordsIn data := by
        subst size
        rw [buf, receivedWords_overwrite base own fits]
      rw [words] at last response
      rw [wordsRead_waited, endByte_append found, beforeEnd_append found]
      exact ⟨last, by simp [response, response₁]⟩

/-- The part of `txWave` behind the request. -/
def receiveBlock (receive_wait_deadline_us timeout_small_us io_start_us : UInt32) : GpioM Unit := do
  let received_count ← waitReceive receive_wait_deadline_us ((← get).answers.length + 1)
  let receive_deadline ← addU32 (← tickSince 0) timeoutReceiveUs
  let end_byte ← receiveLoop receive_deadline ((← get).answers.length + 1) received_count
  answerBlock timeout_small_us end_byte
  let _ ← tickSince io_start_us
  pure ()

theorem txWave_eq (request : List UInt8) (timeout : Duration) :
    txWave request timeout = (do
      let timeout_us ← micros timeout
      let io_start_us ← tickSince 0
      let receive_wait_deadline_us ← addU32 io_start_us timeout_us
      let send_deadline_us ← addU32 io_start_us (timeoutCharUs * UInt32.ofNat request.length)
      mdbWaveSendWait .request send_deadline_us .request
      receiveBlock receive_wait_deadline_us (min timeout_us timeoutSmallUs) io_start_us) := rfl

/-- The part that reads takes its words from a sequence of reads of its own. -/
theorem receiveBlock_ok {receive_wait_deadline_us timeout_small_us io_start_us : UInt32} {g g' : Gpio}
    (h : receiveBlock receive_wait_deadline_us timeout_small_us io_start_us g = .ok () g') :
    ∃ more, g'.reads = g.reads ++ more ∧ ((∀ data ∈ more, data.length % 2 = 0) →
      (endByte (wordsRead more)).isSome ∧
      g'.response = g.response ++ (beforeEnd (wordsRead more)).map Prod.fst) := by
  rw [receiveBlock, bind_of_ok (get_ok g)] at h
  obtain ⟨received_count, g₁, hwait, h⟩ := bind_eq_ok.mp h
  obtain ⟨now, g₂, htick, h⟩ := bind_eq_ok.mp h
  obtain ⟨receive_deadline, g₃, hdeadline, h⟩ := bind_eq_ok.mp h
  rw [bind_of_ok (get_ok _)] at h
  obtain ⟨end_byte, g₄, hloop, h⟩ := bind_eq_ok.mp h
  obtain ⟨_, g₅, hanswer, h⟩ := bind_eq_ok.mp h
  obtain ⟨_, g₆, hlog, h⟩ := bind_eq_ok.mp h
  obtain ⟨-, rfl⟩ := pure_eq_ok.mp h
  have answered : heard g₆ = heard g₄ :=
    calc heard g₆ = heard g₅ := (heard_admits.tickSince _).of_ok hlog
      _ = heard g₄ := (heard_admits.answerBlock (keeps_throw _ _) _ _).of_ok hanswer
  have deadlined : heard g₃ = heard g₁ :=
    calc heard g₃ = heard g₂ := (heard_admits.addU32 (keeps_throw _ _) _ _).of_ok hdeadline
      _ = heard g₁ := (heard_admits.tickSince 0).of_ok htick
  have sameBuf : g₃.buf = g₁.buf :=
    calc g₃.buf = g₂.buf := (buf_admits.addU32 (keeps_throw _ _) _ _).of_ok hdeadline
      _ = g₁.buf := (buf_admits.tickSince 0).of_ok htick
  obtain ⟨k, base, data, size, fits, buf, firstReads, firstResponse⟩ := waitReceive_ok hwait
  obtain ⟨more, loopReads, spec⟩ := receiveLoop_ok hloop
  obtain ⟨reads₃, response₃⟩ := heard_eq_iff.mp deadlined
  obtain ⟨reads₆, response₆⟩ := heard_eq_iff.mp answered
  refine ⟨List.replicate k [] ++ [data] ++ more, ?_, fun even => ?_⟩
  · rw [reads₆, loopReads, reads₃, firstReads]
    simp only [List.append_assoc]
  · have own := even data (by simp)
    obtain ⟨last, response⟩ := spec fun data' mem => even data' (by simp [mem])
    have words : receivedWords g₃.buf received_count = wordsIn data := by
      subst size
      rw [sameBuf, buf, receivedWords_overwrite base own fits]
    rw [words] at last response
    rw [wordsRead_waited]
    refine ⟨by rw [last]; rfl, ?_⟩
    rw [response₆, response, response₃, firstResponse]

/-- A call that returns has read its response and the end byte as one sequence of words. -/
theorem tx_ok {capacity : Nat} {request : List UInt8} {timeout : Duration} {g g' : Gpio}
    (h : tx capacity request timeout g = .ok () g') :
    ∃ more, g'.reads = g.reads ++ more ∧ ((∀ data ∈ more, data.length % 2 = 0) →
      (endByte (wordsRead more)).isSome ∧
      g'.response = g.response ++ (beforeEnd (wordsRead more)).map Prod.fst) := by
  unfold tx at h
  split at h
  next valid =>
    rw [bind_of_ok (modify_ok _ g), bind_of_ok (get_ok _)] at h
    obtain ⟨_, g₁, hcreate, h⟩ := bind_eq_ok.mp h
    rw [txWave_eq] at h
    obtain ⟨timeout_us, g₂, hmicros, h⟩ := bind_eq_ok.mp h
    obtain ⟨io_start_us, g₃, hstart, h⟩ := bind_eq_ok.mp h
    obtain ⟨receive_wait_deadline_us, g₄, hreceive, h⟩ := bind_eq_ok.mp h
    obtain ⟨send_deadline_us, g₅, hsend, h⟩ := bind_eq_ok.mp h
    obtain ⟨_, g₆, hwave, h⟩ := bind_eq_ok.mp h
    have asked : heard g₆ = heard g :=
      calc heard g₆ = heard g₅ := (heard_admits.mdbWaveSendWait _ _ _).of_ok hwave
        _ = heard g₄ := (heard_admits.addU32 (keeps_throw _ _) _ _).of_ok hsend
        _ = heard g₃ := (heard_admits.addU32 (keeps_throw _ _) _ _).of_ok hreceive
        _ = heard g₂ := (heard_admits.tickSince 0).of_ok hstart
        _ = heard g₁ := (heard_admits.micros _).of_ok hmicros
        _ = heard { g with buf := fillRequest g.buf request } :=
          (heard_admits.mdbWaveCreate _ (keeps_modify fun _ => rfl)).of_ok hcreate
        _ = heard g := rfl
    obtain ⟨reads, response⟩ := heard_eq_iff.mp asked
    have received := receiveBlock_ok h
    rwa [reads, response] at received
  next => exact absurd h throw_ne_ok

end GpioMdb

end Vender
