import Mathlib.Algebra.Field.ZMod
import Vender.Firmware.Crc
import Vender.Lib.CyclicCode

namespace Vender.Crc

open Firmware (crcTurn)

def crcPoly93 : UInt8 := 0x93

def crc8P93Reference (crc data : UInt8) : UInt8 := (crcTurn crcPoly93)^[8] (crc ^^^ data)

def lookup : List UInt8 :=
  [ 0x00, 0x93, 0xb5, 0x26, 0xf9, 0x6a, 0x4c, 0xdf, 0x61, 0xf2, 0xd4, 0x47,
    0x98, 0x0b, 0x2d, 0xbe, 0xc2, 0x51, 0x77, 0xe4, 0x3b, 0xa8, 0x8e, 0x1d,
    0xa3, 0x30, 0x16, 0x85, 0x5a, 0xc9, 0xef, 0x7c, 0x17, 0x84, 0xa2, 0x31,
    0xee, 0x7d, 0x5b, 0xc8, 0x76, 0xe5, 0xc3, 0x50, 0x8f, 0x1c, 0x3a, 0xa9,
    0xd5, 0x46, 0x60, 0xf3, 0x2c, 0xbf, 0x99, 0x0a, 0xb4, 0x27, 0x01, 0x92,
    0x4d, 0xde, 0xf8, 0x6b, 0x2e, 0xbd, 0x9b, 0x08, 0xd7, 0x44, 0x62, 0xf1,
    0x4f, 0xdc, 0xfa, 0x69, 0xb6, 0x25, 0x03, 0x90, 0xec, 0x7f, 0x59, 0xca,
    0x15, 0x86, 0xa0, 0x33, 0x8d, 0x1e, 0x38, 0xab, 0x74, 0xe7, 0xc1, 0x52,
    0x39, 0xaa, 0x8c, 0x1f, 0xc0, 0x53, 0x75, 0xe6, 0x58, 0xcb, 0xed, 0x7e,
    0xa1, 0x32, 0x14, 0x87, 0xfb, 0x68, 0x4e, 0xdd, 0x02, 0x91, 0xb7, 0x24,
    0x9a, 0x09, 0x2f, 0xbc, 0x63, 0xf0, 0xd6, 0x45, 0x5c, 0xcf, 0xe9, 0x7a,
    0xa5, 0x36, 0x10, 0x83, 0x3d, 0xae, 0x88, 0x1b, 0xc4, 0x57, 0x71, 0xe2,
    0x9e, 0x0d, 0x2b, 0xb8, 0x67, 0xf4, 0xd2, 0x41, 0xff, 0x6c, 0x4a, 0xd9,
    0x06, 0x95, 0xb3, 0x20, 0x4b, 0xd8, 0xfe, 0x6d, 0xb2, 0x21, 0x07, 0x94,
    0x2a, 0xb9, 0x9f, 0x0c, 0xd3, 0x40, 0x66, 0xf5, 0x89, 0x1a, 0x3c, 0xaf,
    0x70, 0xe3, 0xc5, 0x56, 0xe8, 0x7b, 0x5d, 0xce, 0x11, 0x82, 0xa4, 0x37,
    0x72, 0xe1, 0xc7, 0x54, 0x8b, 0x18, 0x3e, 0xad, 0x13, 0x80, 0xa6, 0x35,
    0xea, 0x79, 0x5f, 0xcc, 0xb0, 0x23, 0x05, 0x96, 0x49, 0xda, 0xfc, 0x6f,
    0xd1, 0x42, 0x64, 0xf7, 0x28, 0xbb, 0x9d, 0x0e, 0x65, 0xf6, 0xd0, 0x43,
    0x9c, 0x0f, 0x29, 0xba, 0x04, 0x97, 0xb1, 0x22, 0xfd, 0x6e, 0x48, 0xdb,
    0xa7, 0x34, 0x12, 0x81, 0x5e, 0xcd, 0xeb, 0x78, 0xc6, 0x55, 0x73, 0xe0,
    0x3f, 0xac, 0x8a, 0x19 ]

def crc8P93Next (crc data : UInt8) : UInt8 := lookup.getD (crc ^^^ data).toNat 0

def crc8P93N (init : UInt8) (bs : List UInt8) : UInt8 := bs.foldl crc8P93Next init

open Polynomial

/-- A byte as a polynomial, the most significant bit on top. -/
noncomputable def bytePoly (b : UInt8) : (ZMod 2)[X] :=
  ∑ i ∈ Finset.range 8, monomial i (if b.toBitVec.getLsbD i then 1 else 0)

noncomputable def generator : (ZMod 2)[X] := X ^ 8 + X ^ 7 + X ^ 4 + X + 1

theorem coeff_bytePoly (b : UInt8) (j : Nat) :
    (bytePoly b).coeff j = if b.toBitVec.getLsbD j then 1 else 0 := by
  simp only [bytePoly, finsetSum_coeff, coeff_monomial, Finset.sum_ite_eq', Finset.mem_range]
  split
  · rfl
  · rw [BitVec.getLsbD_of_ge _ _ (by omega), if_neg Bool.false_ne_true]

theorem bytePoly_xor (a b : UInt8) : bytePoly (a ^^^ b) = bytePoly a + bytePoly b := by
  ext j
  rw [coeff_add, coeff_bytePoly, coeff_bytePoly, coeff_bytePoly, UInt8.toBitVec_xor, BitVec.getLsbD_xor]
  cases a.toBitVec.getLsbD j <;> cases b.toBitVec.getLsbD j <;> decide

@[simp] theorem bytePoly_zero : bytePoly 0 = 0 := by
  ext j
  simp [coeff_bytePoly]

theorem bytePoly_injective : Function.Injective bytePoly := by
  intro a b same
  apply UInt8.toBitVec_inj.mp
  apply BitVec.eq_of_getLsbD_eq_iff.mpr
  intro i _
  have coeff := congrArg (fun p => p.coeff i) same
  simp only [coeff_bytePoly] at coeff
  cases ha : a.toBitVec.getLsbD i <;> cases hb : b.toBitVec.getLsbD i <;> simp [ha, hb] at coeff ⊢

theorem bytePoly_degree (b : UInt8) : (bytePoly b).degree < (8 : Nat) := by
  rw [degree_lt_iff_coeff_zero]
  intro j hj
  rw [coeff_bytePoly, BitVec.getLsbD_of_ge _ _ hj, if_neg Bool.false_ne_true]

theorem generator_eq : generator = X ^ 8 + bytePoly crcPoly93 := by
  have bits : bytePoly crcPoly93 = 1 + X + X ^ 4 + X ^ 7 := by
    simp [bytePoly, Finset.sum_range_succ, crcPoly93, ← X_pow_eq_monomial]
  rw [generator, bits]
  ring

theorem generator_monic : generator.Monic := generator_eq ▸ monic_X_pow_add (bytePoly_degree _)

theorem generator_degree : generator.degree = (8 : Nat) := by
  rw [generator_eq, degree_add_eq_left_of_degree_lt] <;> rw [degree_X_pow]
  exact bytePoly_degree _

theorem bytePoly_lt (b : UInt8) : (bytePoly b).degree < generator.degree :=
  generator_degree ▸ bytePoly_degree b

/-- A byte shifted left by one has lost its top bit. -/
theorem bytePoly_shiftLeft (b : UInt8) :
    X * bytePoly b = bytePoly (b <<< 1) + if b.toBitVec.getLsbD 7 then X ^ 8 else 0 := by
  have shifted : (b <<< 1).toBitVec = b.toBitVec <<< 1 := rfl
  have top : (if b.toBitVec.getLsbD 7 then X ^ 8 else 0 : (ZMod 2)[X]) =
      monomial 8 (if b.toBitVec.getLsbD 7 then 1 else 0) := by
    split <;> simp [X_pow_eq_monomial]
  ext j
  rw [coeff_add, top, coeff_monomial, coeff_bytePoly, shifted, BitVec.getLsbD_shiftLeft]
  cases j with
  | zero => simp
  | succ j =>
    rw [coeff_X_mul, coeff_bytePoly]
    rcases lt_trichotomy j 7 with below | rfl | above
    · simp [show j + 1 < 8 by omega, show ¬ 8 = j + 1 by omega]
    · simp
    · simp [show ¬ j + 1 < 8 by omega, show ¬ 8 = j + 1 by omega, show 8 ≤ j by omega]

theorem top_set (b : UInt8) : b &&& 0x80 ≠ 0 ↔ b.toBitVec.getLsbD 7 := by
  have table : ∀ i : Fin 256, UInt8.ofNat i &&& 0x80 ≠ 0 ↔ (UInt8.ofNat i).toBitVec.getLsbD 7 := by
    decide +kernel
  simpa using table ⟨b.toNat, b.toNat_lt⟩

/-- One turn of the reference is one step of the division. -/
theorem bytePoly_crcTurn (crc : UInt8) :
    bytePoly (crcTurn crcPoly93 crc) = CyclicCode.shift generator (bytePoly crc) := by
  have quotient : bytePoly (crcTurn crcPoly93 crc) + generator * (if crc.toBitVec.getLsbD 7 then 1 else 0) =
      X * bytePoly crc := by
    rw [bytePoly_shiftLeft, crcTurn, generator_eq]
    by_cases top : crc.toBitVec.getLsbD 7
    · rw [if_pos ((top_set crc).mpr top), if_pos top, if_pos top, bytePoly_xor]
      -- the polynomial that the turn put in goes out with the quotient's
      rw [mul_one, add_comm (X ^ 8), add_assoc, ← add_assoc (bytePoly crcPoly93), CharTwo.add_self_eq_zero,
        zero_add]
    · rw [if_neg (mt (top_set crc).mp top), if_neg top, if_neg top, mul_zero]
  exact ((div_modByMonic_unique _ _ generator_monic ⟨quotient, bytePoly_lt _⟩).2).symm

theorem bytePoly_reference (crc data : UInt8) :
    bytePoly (crc8P93Reference crc data) = CyclicCode.feed generator 8 (bytePoly crc) (bytePoly data) := by
  have turns : Function.Semiconj bytePoly (crcTurn crcPoly93) (CyclicCode.shift generator) := bytePoly_crcTurn
  rw [crc8P93Reference, (turns.iterate_right 8).eq, bytePoly_xor, CyclicCode.feed]

theorem lookup_eq : lookup = (List.range 256).map fun n => (crcTurn crcPoly93)^[8] (UInt8.ofNat n) := by
  decide +kernel

theorem next_reference (crc data : UInt8) : crc8P93Next crc data = crc8P93Reference crc data := by
  have index : (crc ^^^ data).toNat < 256 := UInt8.toNat_lt _
  rw [crc8P93Next, crc8P93Reference, lookup_eq, List.getD_eq_getElem?_getD, List.getElem?_map,
    List.getElem?_range index, Option.map_some, Option.getD_some, UInt8.ofNat_toNat]

theorem crc8P93N_reference (init : UInt8) (bs : List UInt8) :
    crc8P93N init bs = bs.foldl crc8P93Reference init := by
  rw [crc8P93N, funext₂ next_reference]

/-- A byte string as a polynomial, the first byte on top. -/
noncomputable def bytesPoly (bs : List UInt8) : (ZMod 2)[X] := CyclicCode.word 8 (bs.map bytePoly)

theorem bytePoly_foldl (init : UInt8) (bs : List UInt8) :
    bytePoly (bs.foldl crc8P93Reference init) =
      (bs.map bytePoly).foldl (CyclicCode.feed generator 8) (bytePoly init) := by
  rw [List.foldl_map]
  exact (List.foldl_hom bytePoly fun crc data => (bytePoly_reference crc data).symm).symm

theorem symbols_lt (bs : List UInt8) : ∀ s ∈ bs.map bytePoly, s.degree < generator.degree := by
  intro s hs
  obtain ⟨b, -, rfl⟩ := List.mem_map.mp hs
  exact bytePoly_lt b

/-- The checksum is the remainder of the bytes, with a byte of zeros after them. -/
theorem crc_remainder (init : UInt8) (bs : List UInt8) :
    bytePoly (bs.foldl crc8P93Reference init) =
      (bytePoly init * X ^ (8 * bs.length) + bytesPoly bs * X ^ 8) %ₘ generator := by
  rw [bytePoly_foldl, CyclicCode.foldl_feed generator_monic 8 (bytePoly_lt init) (symbols_lt bs),
    List.length_map, bytesPoly]

/-- A byte string and its checksum make a multiple of the generator, and no other last byte does. -/
theorem crc_iff (m : List UInt8) (c : UInt8) : crc8P93N 0 m = c ↔ generator ∣ bytesPoly (m ++ [c]) := by
  have checks := CyclicCode.checks_iff generator_monic 8 (symbols_lt m) (bytePoly_lt c)
  rw [CharTwo.neg_eq, ← bytePoly_zero, ← bytePoly_foldl, ← crc8P93N_reference] at checks
  rw [← bytePoly_injective.eq_iff, checks, bytesPoly, List.map_append, List.map_singleton]

/-- The firmware's table and fold are those of the Go package. -/
theorem crc8P93N_firmware : Firmware.crc8P93N = crc8P93N := rfl

/-- The counter of the firmware's loop does not wrap before the last byte. -/
theorem crc8P93Loop_eq {data : List UInt8} (short : data.length ≤ 255) (turns : Nat) (i crc : UInt8)
    (inside : i.toNat ≤ data.length) (enough : data.length < turns + i.toNat) :
    Firmware.crc8P93Loop (fun k => data.getD k 0) (UInt8.ofNat data.length) turns i crc =
      some (crc8P93N crc (data.drop i.toNat)) := by
  have size : (UInt8.ofNat data.length).toNat = data.length := by
    rw [UInt8.toNat_ofNat']
    exact Nat.mod_eq_of_lt (by omega)
  induction turns generalizing i crc with
  | zero => omega
  | succ turns ih =>
    rw [Firmware.crc8P93Loop]
    split
    next more =>
      rw [UInt8.lt_iff_toNat_lt, size] at more
      have next : (i + 1).toNat = i.toNat + 1 := by
        rw [UInt8.toNat_add]
        exact Nat.mod_eq_of_lt (by change i.toNat + 1 < 256; omega)
      have byte : data.getD i.toNat 0 = data[i.toNat] := by simp [more]
      rw [ih (i + 1) _ (by omega) (by omega), next, List.drop_eq_getElem_cons more, byte]
      rfl
    next done =>
      rw [UInt8.lt_iff_toNat_lt, size] at done
      rw [List.drop_of_length_le (by omega)]
      rfl

end Vender.Crc
