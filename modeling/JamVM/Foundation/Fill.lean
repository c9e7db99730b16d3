import Mathlib.Data.List.Basic

/-! # Filling in a table

Items that know their index are written into a table one after the other.
-/

namespace JamVM

open List

def fill {α : Type u} (index : α → Nat) (table items : List α) : List α :=
  items.foldl (fun table item => table.set (index item) item) table

namespace Fill

variable {α : Type u} {index : α → Nat} {table items : List α} {item : α} {position : Nat}

@[simp] theorem length_fill : (fill index table items).length = table.length := by
  unfold fill
  induction items generalizing table with
  | nil => rfl
  | cons first rest ih => rw [foldl_cons, ih, length_set]

theorem getElem?_unwritten (unwritten : ∀ item ∈ items, index item ≠ position) :
    (fill index table items)[position]? = table[position]? := by
  unfold fill
  induction items generalizing table with
  | nil => rfl
  | cons first rest ih =>
    rw [foldl_cons, ih fun item mem => unwritten item (mem_cons_of_mem _ mem),
      getElem?_set_ne (unwritten first (mem_cons_self ..))]

theorem getElem?_written (distinct : items.Pairwise fun first second => index first ≠ index second)
    (mem : item ∈ items) (bound : index item < table.length) :
    (fill index table items)[index item]? = some item := by
  induction items generalizing table with
  | nil => cases mem
  | cons first rest ih =>
    obtain ⟨apart, distinct⟩ := pairwise_cons.mp distinct
    cases mem with
    | head =>
      -- No later item overwrites the first one.
      have kept : (fill index (table.set (index item) item) rest)[index item]? =
          (table.set (index item) item)[index item]? :=
        getElem?_unwritten fun other mem => (apart other mem).symm
      exact kept.trans (getElem?_set_self bound)
    | tail _ mem => exact ih distinct mem (by simpa using bound)

theorem getElem?_cases (distinct : items.Pairwise fun first second => index first ≠ index second)
    (present : (fill index table items)[position]? = some found) :
    found ∈ items ∧ index found = position ∨
      table[position]? = some found ∧ ∀ item ∈ items, index item ≠ position := by
  by_cases written : ∃ item ∈ items, index item = position
  · obtain ⟨item, mem, rfl⟩ := written
    have bound : index item < table.length := by
      have := (List.getElem?_eq_some_iff.mp present).1
      simpa using this
    rw [getElem?_written distinct mem bound] at present
    cases present
    exact .inl ⟨mem, rfl⟩
  · have unwritten : ∀ item ∈ items, index item ≠ position :=
      fun item mem same => written ⟨item, mem, same⟩
    rw [getElem?_unwritten unwritten] at present
    exact .inr ⟨present, unwritten⟩

end Fill

end JamVM
