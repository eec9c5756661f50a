import Mathlib.Tactic.Common

namespace Vender.Firmware

structure Buffer (size : Nat) where
  data : List UInt8
  length : Nat
  used : Nat
  sized : data.length = size
  fits : length ≤ size

namespace Buffer

variable {size : Nat}

def clearFast (b : Buffer size) : Buffer size :=
  { b with length := 0, used := 0, fits := Nat.zero_le size }

def clearFull (b : Buffer size) : Buffer size :=
  { b with
    data := List.replicate size 0, length := 0, used := 0
    sized := List.length_replicate, fits := Nat.zero_le size }

def init (size : Nat) : Buffer size where
  data := List.replicate size 0
  length := 0
  used := 0
  sized := List.length_replicate
  fits := Nat.zero_le size

/-- `memcpy(data + at_, src, n)` for the `n` bytes of `src`. -/
def overwrite (data : List UInt8) (at_ : Nat) (src : List UInt8) : List UInt8 :=
  data.take at_ ++ src ++ data.drop (at_ + src.length)

theorem overwrite_length {data src : List UInt8} {at_ : Nat} (h : at_ + src.length ≤ data.length) :
    (overwrite data at_ src).length = data.length := by
  simp only [overwrite, List.length_append, List.length_take, List.length_drop]
  omega

/-- `none` where the source returns `false` and leaves the buffer as it is. -/
def appendN (b : Buffer size) (src : List UInt8) : Option (Buffer size) :=
  if h : b.length + src.length > size then
    none
  else
    some { b with
      data := overwrite b.data b.length src
      length := b.length + src.length
      sized := by
        have hs := b.sized
        rw [overwrite_length (by omega), hs]
      fits := by omega }

def append (b : Buffer size) (data : UInt8) : Option (Buffer size) :=
  if h : b.length + 1 > size then
    none
  else
    some { b with
      data := b.data.set b.length data
      length := b.length + 1
      sized := by rw [List.length_set, b.sized]
      fits := by omega }

/-- `Buffer_Copy`. The counter `used` stays. -/
def copy (b : Buffer size) (src : List UInt8) : Buffer size :=
  let len := if src.length < size then src.length else size
  { b with
    data := overwrite b.data 0 (src.take len)
    length := len
    sized := by
      have hs := b.sized
      have hl : (src.take len).length ≤ size := by
        simp only [List.length_take, len]
        split <;> omega
      rw [overwrite_length (by omega), hs]
    fits := by
      simp only [len]
      split <;> omega }

/-- `b.data[i]`. The storage ends at `size`, and no read is made beyond it. -/
def read (b : Buffer size) (i : Nat) (inside : i < size) : UInt8 :=
  b.data.get ⟨i, Nat.lt_of_lt_of_eq inside b.sized.symm⟩

theorem lt_size_of_lt_length (b : Buffer size) {i : Nat} (received : i < b.length) : i < size :=
  Nat.lt_of_lt_of_le received b.fits

theorem read_eq_getD (b : Buffer size) {i : Nat} (inside : i < size) : b.read i inside = b.data.getD i 0 := by
  have short : i < b.data.length := Nat.lt_of_lt_of_eq inside b.sized.symm
  rw [read, List.get_eq_getElem, List.getD_eq_getElem?_getD, List.getElem?_eq_getElem short, Option.getD_some]

def stored (b : Buffer size) : List UInt8 := b.data.take b.length

theorem stored_length (b : Buffer size) : b.stored.length = b.length := by
  have hs := b.sized
  have hf := b.fits
  simp only [stored, List.length_take]
  omega

theorem stored_of_empty {b : Buffer size} (h : b.length = 0) : b.stored = [] := by
  rw [stored, h, List.take_zero]

theorem stored_ne_nil {b : Buffer size} (h : b.length ≠ 0) : b.stored ≠ [] := by
  intro hn
  have hl := b.stored_length
  rw [hn, List.length_nil] at hl
  omega

theorem append_stored {b b' : Buffer size} {data : UInt8} (h : b.append data = some b') :
    b'.stored = b.stored ++ [data] := by
  unfold append at h
  split at h
  next => cases h
  next room =>
    cases h
    have hs := b.sized
    have hb : b.length < b.data.length := by omega
    rw [stored, List.take_add_one, List.take_set_of_le (Nat.le_refl _), List.getElem?_set_self hb]
    rfl

theorem appendN_eq_none {b : Buffer size} {src : List UInt8} :
    b.appendN src = none ↔ size < b.length + src.length := by
  unfold appendN
  split
  next h => exact iff_of_true rfl h
  next h => exact iff_of_false nofun h

end Buffer

end Vender.Firmware
