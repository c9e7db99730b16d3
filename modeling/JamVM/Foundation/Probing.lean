import Mathlib.Data.Nat.Find
import Mathlib.Tactic.Common

/-! # Linear probing

A search goes round the places of a table from a home place on. A place is reached from
its home if all places before it are occupied, so that no search stops too early.
-/

namespace JamVM

open Nat

def around (size home distance : Nat) : Nat := (home + distance) % size

def firstFrom (stop : Nat → Bool) (next : Nat → Nat) : Nat → Nat → Option Nat
  | 0, _ => none
  | fuel + 1, pos => if stop pos then some pos else firstFrom stop next fuel (next pos)

variable {size home pos : Nat}

theorem around_lt (home distance : Nat) (positive : 0 < size) : around size home distance < size :=
  mod_lt _ positive

theorem around_zero (inside : home < size) : around size home 0 = home := mod_eq_of_lt inside

theorem around_succ (size home distance : Nat) :
    around size home (distance + 1) = (around size home distance + 1) % size := by
  rw [around, around, mod_add_mod, Nat.add_assoc]

theorem exists_around (homeInside : home < size)
    (inside : pos < size) : ∃ distance < size, around size home distance = pos := by
  refine ⟨(pos + size - home) % size, mod_lt _ (by omega), ?_⟩
  rw [around, add_mod_mod, show home + (pos + size - home) = pos + size by omega,
    add_mod_right, mod_eq_of_lt inside]

section
variable {stop : Nat → Bool} {size : Nat}

theorem firstFrom_around (stops : stop (around size home distance) = true)
    (pre : ∀ earlier < distance, stop (around size home earlier) = false)
    (enough : distance < fuel) :
    firstFrom stop (fun pos => (pos + 1) % size) fuel (around size home 0) =
      some (around size home distance) := by
  suffices ∀ start ≤ distance, distance - start < fuel →
      firstFrom stop (fun pos => (pos + 1) % size) fuel (around size home start) =
        some (around size home distance) from
    this 0 (zero_le _) enough
  clear enough
  induction fuel with
  | zero => exact fun _ _ short => absurd short (not_lt_zero _)
  | succ fuel ih =>
    intro start le short
    rw [firstFrom]
    rcases lt_or_eq_of_le le with earlier | rfl
    · rw [if_neg (by rw [pre start earlier]; exact Bool.false_ne_true), ← around_succ]
      exact ih (start + 1) earlier (by omega)
    · rw [if_pos stops]

theorem firstFrom_least (stop : Nat → Bool) (homeInside : home < size)
    (stops : ∃ pos < size, stop pos = true) :
    ∃ distance < size, stop (around size home distance) = true ∧
      (∀ earlier < distance, stop (around size home earlier) = false) ∧
      ∀ fuel ≥ size, firstFrom stop (fun pos => (pos + 1) % size) fuel home =
        some (around size home distance) := by
  obtain ⟨pos, inside, found⟩ := stops
  obtain ⟨away, bound, rfl⟩ := exists_around homeInside inside
  have stops : ∃ distance, stop (around size home distance) = true := ⟨away, found⟩
  have least : Nat.find stops < size := Nat.lt_of_le_of_lt (Nat.find_min' stops found) bound
  have pre : ∀ earlier < Nat.find stops, stop (around size home earlier) = false :=
    fun earlier smaller => Bool.eq_false_iff.mpr (Nat.find_min stops smaller)
  refine ⟨Nat.find stops, least, Nat.find_spec stops, pre, fun fuel enough => ?_⟩
  have res := firstFrom_around (Nat.find_spec stops) pre (lt_of_lt_of_le least enough)
  rwa [around_zero homeInside] at res

end

def Probed (size : Nat) (occupied : Nat → Prop) (home pos : Nat) : Prop :=
  ∃ distance, around size home distance = pos ∧
    ∀ earlier < distance, occupied (around size home earlier)

theorem Probed.mono (reached : Probed size occupied home pos)
    (subset : ∀ place, occupied place → more place) : Probed size more home pos := by
  obtain ⟨distance, isPosition, filled⟩ := reached
  exact ⟨distance, isPosition, fun earlier smaller => subset _ (filled earlier smaller)⟩

/-- A search that stops at free places, and at some occupied ones, does not miss a place
that it can reach and at which it stops. -/
theorem Probed.not_missed {stop : Nat → Bool} (reached : Probed size occupied home pos)
    (stops : stop pos = true) (isOccupied : occupied pos)
    (pre : ∀ earlier < distance, stop (around size home earlier) = false) :
    occupied (around size home distance) := by
  obtain ⟨found, rfl, filled⟩ := reached
  rcases lt_trichotomy distance found with smaller | rfl | larger
  · exact filled distance smaller
  · exact isOccupied
  · rw [pre found larger] at stops
    cases stops

end JamVM
