import Mathlib.Data.List.Basic

/-! # Counting the parties at a place

A counter kept by a program often stands for the number of parties that are at
some point of their code. `Census place here count` says that exactly `count`
parties are at `here`, for any number of parties in all.
-/

namespace JamVM

variable {Party : Type u} {Place : Type v} {place post : Party → Option Place}
  {here : Place} {count : Nat}

def Census (place : Party → Option Place) (here : Place) (count : Nat) : Prop :=
  ∃ members : List Party, members.Nodup ∧
    (∀ party, place party = some here ↔ party ∈ members) ∧ members.length = count

namespace Census

theorem empty (absent : ∀ party, place party ≠ some here) : Census place here 0 :=
  ⟨[], .nil, fun party => by simp [absent party], rfl⟩

theorem congr (census : Census place here count)
    (same : ∀ party, post party = some here ↔ place party = some here) :
    Census post here count := by
  obtain ⟨members, distinct, present, length⟩ := census
  exact ⟨members, distinct, fun party => (same party).trans (present party), length⟩

theorem pos (census : Census place here count) (present : place party = some here) : 0 < count := by
  obtain ⟨members, _, membership, rfl⟩ := census
  exact List.length_pos_of_mem ((membership party).mp present)

variable {moved : Party} (others : ∀ party, party ≠ moved → post party = place party)
include others

theorem join [DecidableEq Party] (census : Census place here count)
    (absent : place moved ≠ some here) (arrived : post moved = some here) :
    Census post here (count + 1) := by
  obtain ⟨members, distinct, present, rfl⟩ := census
  refine ⟨moved :: members, ?_, fun party => ?_, rfl⟩
  · exact List.nodup_cons.mpr ⟨fun mem => absent ((present moved).mpr mem), distinct⟩
  · by_cases same : party = moved
    · simp [same, arrived]
    · simp [same, others party same, present party]

theorem leave [DecidableEq Party] (census : Census place here count)
    (present : place moved = some here) (left : post moved ≠ some here) :
    Census post here (count - 1) := by
  obtain ⟨members, distinct, membership, rfl⟩ := census
  refine ⟨members.erase moved, distinct.erase moved, fun party => ?_, ?_⟩
  · by_cases same : party = moved
    · simp [same, left, distinct.not_mem_erase]
    · rw [others party same, membership party, List.mem_erase_of_ne same]
  · exact List.length_erase_of_mem ((membership moved).mp present)

end Census

end JamVM
