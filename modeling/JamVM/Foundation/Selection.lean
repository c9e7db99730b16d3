import Mathlib.Data.List.Induction

/-! # Selection of a least candidate

Candidates of a partial order are taken one after the other. The current choice is
kept, replaced by a candidate below it, or given up for good if neither is below the
other. Weak candidates do not compete with each other.
-/

namespace JamVM

open List

inductive Selection (α : Type u)
  | none
  | chosen (candidate : α)
  | conflict
  deriving DecidableEq

namespace Selection

variable {α : Type u} [DecidableEq α] (below : α → α → Bool) (weak : α → Bool)

def select : Selection α → α → Selection α
  | none, candidate => chosen candidate
  | conflict, _ => conflict
  | chosen current, candidate =>
    if weak current && weak candidate || current = candidate || below current candidate then
      chosen current
    else if below candidate current then
      chosen candidate
    else
      conflict

def selectAll (candidates : List α) : Selection α := candidates.foldl (select below weak) none

variable {below weak} {candidates : List α}

theorem selectAll_concat (candidates : List α) (last : α) :
    selectAll below weak (candidates ++ [last]) =
      select below weak (selectAll below weak candidates) last := by
  simp [selectAll]

theorem select_chosen (below : α → α → Bool) (weak : α → Bool) (current candidate : α) :
    (select below weak (chosen current) candidate = chosen current ∧
      ((weak current = true ∧ weak candidate = true) ∨ current = candidate ∨
        below current candidate = true)) ∨
    (select below weak (chosen current) candidate = chosen candidate ∧
      below candidate current = true) ∨
    (select below weak (chosen current) candidate = conflict ∧
      ¬ (weak current = true ∧ weak candidate = true) ∧ current ≠ candidate ∧
      below current candidate = false ∧ below candidate current = false) := by
  by_cases keep : (weak current && weak candidate || current = candidate ||
      below current candidate) = true
  · left
    refine ⟨by rw [select, if_pos keep], ?_⟩
    simp only [Bool.or_eq_true, Bool.and_eq_true, decide_eq_true_eq] at keep
    exact or_assoc.mp keep
  · right
    by_cases lower : below candidate current = true
    · exact .inl ⟨by rw [select, if_neg keep, if_pos lower], lower⟩
    · right
      refine ⟨by rw [select, if_neg keep, if_neg lower], ?_⟩
      simp only [Bool.or_eq_true, Bool.and_eq_true, decide_eq_true_eq, not_or] at keep
      obtain ⟨⟨strong, ne⟩, notBelow⟩ := keep
      exact ⟨strong, ne, by simpa using notBelow, by simpa using lower⟩

theorem selectAll_ne_none (present : candidates ≠ []) : selectAll below weak candidates ≠ none := by
  cases candidates using reverseRecOn with
  | nil => exact absurd rfl present
  | append_singleton rest last =>
    rw [selectAll_concat]
    cases selectAll below weak rest with
    | none | conflict => simp [select]
    | chosen current =>
      rcases select_chosen below weak current last with ⟨step, -⟩ | ⟨step, -⟩ | ⟨step, -⟩
      all_goals rw [step]; simp

theorem selectAll_weak (below : α → α → Bool)
    (allWeak : ∀ candidate ∈ candidates, weak candidate = true)
    (present : candidates ≠ []) :
    ∃ candidate ∈ candidates, selectAll below weak candidates = chosen candidate := by
  induction candidates using reverseRecOn with
  | nil => exact absurd rfl present
  | append_singleton rest last ih =>
    rw [selectAll_concat]
    obtain rfl | empty := eq_or_ne rest []
    · exact ⟨last, mem_singleton_self _, rfl⟩
    · obtain ⟨current, mem, found⟩ := ih
        (fun candidate mem => allWeak candidate (mem_append_left _ mem)) empty
      refine ⟨current, mem_append_left _ mem, ?_⟩
      have first := allWeak current (mem_append_left _ mem)
      have second := allWeak last (mem_append_right _ (mem_singleton_self _))
      rw [found]
      simp [select, first, second]

theorem selectAll_least
    (asymmetric : ∀ first second, below first second = true → below second first = false)
    (strong : weak least = false)
    (lower : ∀ candidate ∈ pre ++ least :: rest, candidate ≠ least → below least candidate = true)
    (comparable : ∀ first ∈ pre, ∀ second ∈ pre, first ≠ second →
      ¬ (weak first = true ∧ weak second = true) →
      below first second = true ∨ below second first = true) (fresh : least ∉ pre) :
    selectAll below weak (pre ++ least :: rest) = chosen least := by
  have before : ∀ taken ⊆ pre, selectAll below weak taken = none ∨
      ∃ current ∈ pre, selectAll below weak taken = chosen current := by
    intro taken
    induction taken using reverseRecOn with
    | nil => exact fun _ => .inl rfl
    | append_singleton taken last ih =>
      intro subset
      have lastMember := subset (mem_append_right _ (mem_singleton_self _))
      right
      rw [selectAll_concat]
      rcases ih fun _ mem => subset (mem_append_left _ mem) with start | ⟨current, mem, found⟩
      · exact ⟨last, lastMember, by rw [start]; rfl⟩
      · rw [found]
        rcases select_chosen below weak current last with
          ⟨step, -⟩ | ⟨step, -⟩ | ⟨-, competes, differ, no⟩
        · exact ⟨current, mem, step⟩
        · exact ⟨last, lastMember, step⟩
        · simpa [no] using comparable current mem last lastMember differ competes
  have met : select below weak (selectAll below weak pre) least = chosen least := by
    rcases before pre (Subset.refl _) with start | ⟨current, mem, found⟩
    · rw [start]
      rfl
    · have ne : current ≠ least := fun same => fresh (same ▸ mem)
      have under := lower current (mem_append_left _ mem) ne
      simp [found, select, strong, ne, under, asymmetric _ _ under]
  have kept : ∀ others ⊆ rest, others.foldl (select below weak) (chosen least) = chosen least := by
    intro others
    induction others with
    | nil => exact fun _ => rfl
    | cons first others ih =>
      intro subset
      have stays : select below weak (chosen least) first = chosen least := by
        obtain rfl | ne := eq_or_ne first least
        · simp [select]
        · have mem := mem_append_right pre (mem_cons_of_mem least (subset mem_cons_self))
          simp [select, lower first mem ne]
      rw [foldl_cons, stays]
      exact ih fun _ mem => subset (mem_cons_of_mem _ mem)
  calc selectAll below weak (pre ++ least :: rest)
    _ = rest.foldl (select below weak) (select below weak (selectAll below weak pre) least) := by
      simp [selectAll]
    _ = chosen least := by rw [met, kept rest (Subset.refl _)]

section
variable (transitive : ∀ first second third, below first second = true →
  below second third = true → below first third = true)
include transitive

theorem selectAll_below (found : selectAll below weak candidates = chosen current) :
    current ∈ candidates ∧ ∀ candidate ∈ candidates, weak candidate = false →
      candidate = current ∨ below current candidate = true := by
  induction candidates using reverseRecOn generalizing current with
  | nil => cases found
  | append_singleton rest last ih =>
    have newest : last ∈ rest ++ [last] := mem_append_right _ (mem_singleton_self _)
    rw [selectAll_concat] at found
    cases pre : selectAll below weak rest with
    | conflict =>
      rw [pre] at found
      cases found
    | none =>
      rw [pre] at found
      cases found
      refine ⟨newest, ?_⟩
      have empty : rest = [] := by
        by_contra present
        exact selectAll_ne_none present pre
      subst empty
      intro candidate mem _
      exact .inl (by simpa using mem)
    | chosen previous =>
      rw [pre] at found
      obtain ⟨mem, under⟩ := ih pre
      rcases select_chosen below weak previous last with
        ⟨step, reason⟩ | ⟨step, replaces⟩ | ⟨step, -⟩
      · rw [step] at found
        cases found
        refine ⟨mem_append_left _ mem, ?_⟩
        intro candidate listed strong
        rcases mem_append.mp listed with old | new
        · exact under candidate old strong
        · have equal : candidate = last := by simpa using new
          subst equal
          rcases reason with ⟨-, isWeak⟩ | same | above
          · simp [strong] at isWeak
          · exact .inl same.symm
          · exact .inr above
      · rw [step] at found
        cases found
        refine ⟨newest, ?_⟩
        intro candidate listed strong
        rcases mem_append.mp listed with old | new
        · right
          rcases under candidate old strong with rfl | above
          · exact replaces
          · exact transitive _ _ _ replaces above
        · exact .inl (by simpa using new)
      · rw [step] at found
        cases found

theorem selectAll_conflict
    (unbounded : ∀ current ∈ candidates, ∃ candidate ∈ candidates, weak candidate = false ∧
      candidate ≠ current ∧ below current candidate = false)
    (present : candidates ≠ []) : selectAll below weak candidates = conflict := by
  cases found : selectAll below weak candidates with
  | conflict => rfl
  | none => exact absurd found (selectAll_ne_none present)
  | chosen current =>
    obtain ⟨mem, under⟩ := selectAll_below transitive found
    obtain ⟨candidate, listed, strong, ne, misses⟩ := unbounded current mem
    rcases under candidate listed strong with same | above
    · exact absurd same ne
    · simp [misses] at above

end

end Selection

end JamVM
