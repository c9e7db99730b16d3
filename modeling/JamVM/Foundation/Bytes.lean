import Mathlib.Algebra.Order.Ring.Int

/-! # Words and their bytes

Shifting the bytes of a word to their places and joining them gives the word.
-/

namespace JamVM.Foundation

open BitVec

def byteOf {width : Nat} (value : BitVec width) (place : Nat) : BitVec 8 :=
  value.extractLsb' (8 * place) 8

variable {width : Nat} (value : BitVec width)

theorem getLsbD_byteOf_shift (wide place i : Nat) (inside : i < wide) :
    ((byteOf value place).setWidth wide <<< (8 * place)).getLsbD i =
      (decide (8 * place ≤ i ∧ i < 8 * place + 8) && value.getLsbD i) := by
  simp only [byteOf, getLsbD_shiftLeft, getLsbD_setWidth, getLsbD_extractLsb', inside]
  by_cases low : i < 8 * place
  · simp [low, show ¬ 8 * place ≤ i by omega]
  · by_cases high : i < 8 * place + 8
    · simp [low, high, show 8 * place ≤ i by omega, show i - 8 * place < wide by omega,
        show i - 8 * place < 8 by omega]
    · simp [low, high, show ¬ i - 8 * place < 8 by omega]

theorem getLsbD_byteOf (wide i : Nat) (inside : i < wide) :
    ((byteOf value 0).setWidth wide).getLsbD i = (decide (i < 8) && value.getLsbD i) := by
  simpa using getLsbD_byteOf_shift value wide 0 i inside

theorem joinBytes2 (value : BitVec 16) :
    (byteOf value 1).setWidth 32 <<< 8 ||| (byteOf value 0).setWidth 32 = value.setWidth 32 := by
  apply eq_of_getLsbD_eq
  intro i inside
  simp only [getLsbD_or, getLsbD_byteOf value 32 i inside,
    getLsbD_byteOf_shift value 32 1 i inside, getLsbD_setWidth, inside]
  cases bit : value.getLsbD i with
  | false => simp
  | true =>
    have := lt_of_getLsbD bit
    simp
    omega

theorem joinBytes4 (value : BitVec 32) :
    (byteOf value 3).setWidth 32 <<< 24 ||| (byteOf value 2).setWidth 32 <<< 16 |||
      (byteOf value 1).setWidth 32 <<< 8 ||| (byteOf value 0).setWidth 32 = value := by
  apply eq_of_getLsbD_eq
  intro i inside
  simp only [getLsbD_or, getLsbD_byteOf value 32 i inside,
    getLsbD_byteOf_shift value 32 1 i inside, getLsbD_byteOf_shift value 32 2 i inside,
    getLsbD_byteOf_shift value 32 3 i inside]
  cases value.getLsbD i with
  | false => simp
  | true =>
    simp
    omega

theorem joinBytes2_reverse (value : BitVec 16) :
    (byteOf value 0).setWidth 32 ||| (byteOf value 1).setWidth 32 <<< 8 = value.setWidth 32 :=
  (or_comm _ _).trans (joinBytes2 value)

theorem joinBytes4_reverse (value : BitVec 32) :
    (byteOf value 0).setWidth 32 ||| (byteOf value 1).setWidth 32 <<< 8 |||
      (byteOf value 2).setWidth 32 <<< 16 ||| (byteOf value 3).setWidth 32 <<< 24 = value := by
  refine Eq.trans ?_ (joinBytes4 value)
  generalize (byteOf value 1).setWidth 32 <<< 8 = byte1
  generalize (byteOf value 2).setWidth 32 <<< 16 = byte2
  generalize (byteOf value 3).setWidth 32 <<< 24 = byte3
  ac_rfl

theorem joinBytes8 (value : BitVec 64) :
    (byteOf value 7).setWidth 64 <<< 56 ||| (byteOf value 6).setWidth 64 <<< 48 |||
      (byteOf value 5).setWidth 64 <<< 40 ||| (byteOf value 4).setWidth 64 <<< 32 |||
      (byteOf value 3).setWidth 64 <<< 24 ||| (byteOf value 2).setWidth 64 <<< 16 |||
      (byteOf value 1).setWidth 64 <<< 8 ||| (byteOf value 0).setWidth 64 = value := by
  apply eq_of_getLsbD_eq
  intro i inside
  simp only [getLsbD_or, getLsbD_byteOf value 64 i inside,
    getLsbD_byteOf_shift value 64 1 i inside, getLsbD_byteOf_shift value 64 2 i inside,
    getLsbD_byteOf_shift value 64 3 i inside, getLsbD_byteOf_shift value 64 4 i inside,
    getLsbD_byteOf_shift value 64 5 i inside, getLsbD_byteOf_shift value 64 6 i inside,
    getLsbD_byteOf_shift value 64 7 i inside]
  cases value.getLsbD i with
  | false => simp
  | true =>
    simp
    omega

end JamVM.Foundation
