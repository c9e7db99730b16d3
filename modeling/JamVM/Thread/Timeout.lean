import Mathlib.Algebra.Order.Ring.Int

/-! # Timeouts

Conversion of milliseconds and nanoseconds to a `timespec`. A result of `none` is an overflow.
-/

namespace JamVM.Thread

open Int Option

def longLong (value : Int) : Option Int :=
  if -2 ^ 63 ≤ value ∧ value < 2 ^ 63 then some value else none

section
variable (longMax : Int)

abbrev IsLong (value : Int) : Prop := -longMax - 1 ≤ value ∧ value ≤ longMax

structure Timespec where
  tvSec : Int
  tvNsec : Int

structure Timeval where
  tvSec : Int
  tvUsec : Int
  isLong : IsLong longMax tvSec
  isUsec : 0 ≤ tvUsec ∧ tvUsec < 1000000

def Timeval.total {longMax : Int} (tv : Timeval longMax) : Int :=
  tv.tvSec * 1000000000 + tv.tvUsec * 1000

def storeTimespec (seconds nanos : Int) : Option Timespec :=
  let tvSec := if seconds > longMax then longMax else seconds
  if IsLong longMax tvSec ∧ IsLong longMax nanos then some ⟨tvSec, nanos⟩ else none

def getTimeoutAbsolute (millis nanos : Int) : Option Timespec := do
  let seconds ← longLong (millis.tdiv 1000 + nanos.tdiv 1000000000)
  let nanos := nanos.tmod 1000000000
  let scaled ← longLong (millis.tmod 1000 * 1000000)
  let nanos ← longLong (nanos + scaled)
  if nanos > 999999999 then
    let seconds ← longLong (seconds + 1)
    let nanos ← longLong (nanos - 1000000000)
    storeTimespec longMax seconds nanos
  else
    storeTimespec longMax seconds nanos

def getTimeoutRelative (tv : Timeval longMax) (millis nanos : Int) : Option Timespec := do
  let seconds ← longLong (tv.tvSec + millis.tdiv 1000)
  let seconds ← longLong (seconds + nanos.tdiv 1000000000)
  let nanos := nanos.tmod 1000000000
  let micros ← longLong (millis.tmod 1000 * 1000)
  let micros ← longLong (tv.tvUsec + micros)
  let scaled ← longLong (micros * 1000)
  let nanos ← longLong (nanos + scaled)
  let seconds ← longLong (seconds + nanos.tdiv 1000000000)
  let nanos := nanos.tmod 1000000000
  storeTimespec longMax seconds nanos

def normalised (total : Int) : Timespec := ⟨min (total / 1000000000) longMax, total % 1000000000⟩

end

theorem longLong_eq (inRange : -2 ^ 63 ≤ value ∧ value < 2 ^ 63) : longLong value = some value :=
  if_pos inRange

section
variable {longMax millis nanos : Int} (isLongMax : longMax = 2 ^ 31 - 1 ∨ longMax = 2 ^ 63 - 1)
  (isMillis : 0 ≤ millis ∧ millis < 2 ^ 63) (isNanos : 0 ≤ nanos ∧ nanos < 2 ^ 63)
include isLongMax

theorem storeTimespec_eq (least : -longMax - 1 ≤ total / 1000000000) :
    storeTimespec longMax (total / 1000000000) (total % 1000000000) =
      some (normalised longMax total) := by
  have cut : (if total / 1000000000 > longMax then longMax else total / 1000000000) =
      min (total / 1000000000) longMax := by
    split <;> omega
  rw [storeTimespec, cut, if_pos (by unfold IsLong; omega)]
  rfl

include isMillis isNanos

/-- Both conversions are exact, and nothing overflows as long as the sum of the seconds does not. -/
theorem getTimeout_exact (tv : Timeval longMax) :
    getTimeoutAbsolute longMax millis nanos =
        some (normalised longMax (millis * 1000000 + nanos)) ∧
      ((tv.total + millis * 1000000 + nanos) / 1000000000 < 2 ^ 63 →
        getTimeoutRelative longMax tv millis nanos =
          some (normalised longMax (tv.total + millis * 1000000 + nanos))) ∧
      ∀ total, 0 ≤ (normalised longMax total).tvNsec ∧
        (normalised longMax total).tvNsec < 1000000000 := by
  refine ⟨?_, fun sum => ?_, fun total => ?_⟩
  · rw [← storeTimespec_eq isLongMax (by omega), getTimeoutAbsolute]
    simp (disch := omega) only [longLong_eq, bind_eq_bind, bind_some, tdiv_eq_ediv_of_nonneg,
      tmod_eq_emod_of_nonneg]
    split <;> congr 1 <;> omega
  · obtain ⟨tvSec, tvUsec, isLong, isUsec⟩ := tv
    simp only [Timeval.total] at sum ⊢
    rw [← storeTimespec_eq isLongMax (by omega), getTimeoutRelative]
    simp (disch := omega) only [longLong_eq, bind_eq_bind, bind_some, tdiv_eq_ediv_of_nonneg,
      tmod_eq_emod_of_nonneg]
    congr 1 <;> omega
  · simp only [normalised]
    omega

end

theorem getTimeout_exact_carry :
    getTimeoutRelative (2 ^ 31 - 1) ⟨1, 999999, by decide, by decide⟩ 1999 1001000 =
      some (normalised (2 ^ 31 - 1) 4000000000) :=
  (getTimeout_exact (.inl rfl) (by decide) (by decide) ⟨1, 999999, by decide, by decide⟩).2.1
    (by decide)

end JamVM.Thread
