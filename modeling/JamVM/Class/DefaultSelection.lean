import JamVM.Class.DefaultMethod

/-! # Maximally specific methods

The Miranda of a signature compared with the set of the superinterfaces that declare
it. A conflict between two of them is final, so the order of the interfaces matters
unless the set is settled.
-/

namespace JamVM.Class.Hierarchy

open Selection List

variable {hier : Hierarchy} {sig : Utf8 × Utf8} {self : Nat}

section
variable (hier : Hierarchy)

variable (sig : Utf8 × Utf8)

structure Offers (target : Nat) (method : MethodRef) (info : MethodInfo) : Prop where
  implemented : SuperInterface hier method.owner target
  candidate : Candidate hier sig method info

def AllAbstract (target : Nat) : Prop :=
  ∀ method info, Offers hier sig target method info → info.flags.isAbstract = true

/-- The method is not abstract, and its interface extends all others that declare the
signature. -/
structure MostSpecific (target : Nat) (method : MethodRef) : Prop where
  offered : ∃ info, Offers hier sig target method info ∧ info.flags.isAbstract = false
  lowest : ∀ other info, Offers hier sig target other info →
    other.owner ≠ method.owner → SuperInterface hier other.owner method.owner

/-- Declarations that the interface table has before the method are both abstract or in related
interfaces. -/
def Comparable (target : Nat) (method : MethodRef) : Prop :=
  ∀ pre rest, hier.candidates sig target = pre ++ method.owner :: rest → method.owner ∉ pre →
    ∀ first info second info', Offers hier sig target first info → first.owner ∈ pre →
    Offers hier sig target second info' → second.owner ∈ pre → first.owner ≠ second.owner →
    ¬ (info.flags.isAbstract = true ∧ info'.flags.isAbstract = true) →
    SuperInterface hier second.owner first.owner ∨ SuperInterface hier first.owner second.owner

def Unbounded (target : Nat) : Prop :=
  ∀ method info, Offers hier sig target method info →
    ∃ other info', Offers hier sig target other info' ∧
      info'.flags.isAbstract = false ∧ other.owner ≠ method.owner ∧
      ¬ SuperInterface hier other.owner method.owner

def Settled (target : Nat) : Prop :=
  AllAbstract hier sig target ∨
  (∃ method, MostSpecific hier sig target method ∧ Comparable hier sig target method) ∨
  Unbounded hier sig target

end

theorem mem_candidates_iff : iface ∈ hier.candidates sig self ↔
      ∃ method info, Offers hier sig self method info ∧ method.owner = iface := by
  rw [candidates, mem_filter, mem_listed_iff]
  constructor
  · rintro ⟨above, declares⟩
    obtain ⟨info, search⟩ := Option.isSome_iff_exists.mp declares
    have holds := find?_some search
    simp only [Bool.and_eq_true, decide_eq_true_eq] at holds
    obtain ⟨pos, found⟩ := mem_iff_getElem?.mp (mem_of_find?_eq_some search)
    exact ⟨⟨iface, pos⟩, info, ⟨above, found, holds.1, holds.2⟩, rfl⟩
  · rintro ⟨method, info, offers, rfl⟩
    exact ⟨offers.implemented, by simp [declaresSignature, offers.candidate.declaration]⟩

theorem extend_iff (first second : Nat) :
    hier.extend first second = true ↔ SuperInterface hier second first :=
  implements_iff hier second first

theorem extend_trans (first second third : Nat) (upper : hier.extend first second = true)
    (lower : hier.extend second third = true) : hier.extend first third = true := by
  rw [extend_iff] at *
  exact lower.trans upper

theorem extend_asymm (first second : Nat) (lower : hier.extend first second = true) :
    hier.extend second first = false := by
  rw [extend_iff] at lower
  by_contra other
  have upper := (extend_iff second first).mp (by simpa using other)
  have := lower.lt
  have := upper.lt
  omega

theorem extend_eq_false (unrelated : ¬ SuperInterface hier second first) :
    hier.extend first second = false := by
  rw [← extend_iff] at unrelated
  simpa using unrelated

variable {method : MethodRef} {info : MethodInfo}

theorem MostSpecific.selected (specific : MostSpecific hier sig self method)
    (comparable : Comparable hier sig self method) :
    selectAll hier.extend (hier.abstractIn sig)
      (hier.candidates sig self) = .chosen method.owner := by
  obtain ⟨info, offers, strong⟩ := specific.offered
  obtain ⟨pre, rest, split, fresh⟩ :=
    eq_append_cons_of_mem (mem_candidates_iff.mpr ⟨method, info, offers, rfl⟩)
  rw [split]
  refine selectAll_least extend_asymm (by rwa [offers.candidate.abstractIn]) ?_ ?_ fresh
  · intro iface mem ne
    obtain ⟨other, info', offers', rfl⟩ := mem_candidates_iff.mp (split ▸ mem)
    rw [extend_iff]
    exact specific.lowest other info' offers' ne
  · intro first mem second member' ne competes
    obtain ⟨method, info, offers, rfl⟩ := mem_candidates_iff.mp (split ▸ mem_append_left _ mem)
    obtain ⟨method', info', offers', rfl⟩ :=
      mem_candidates_iff.mp (split ▸ mem_append_left _ member')
    rw [offers.candidate.abstractIn, offers'.candidate.abstractIn] at competes
    rw [extend_iff, extend_iff]
    exact comparable pre rest split fresh method info method' info' offers mem offers' member' ne
      competes

theorem MostSpecific.unique (first : MostSpecific hier sig self method)
    (second : MostSpecific hier sig self other) : method = other := by
  obtain ⟨info, offers, -⟩ := first.offered
  obtain ⟨info', offers', -⟩ := second.offered
  refine offers.candidate.eq_of_owner offers'.candidate ?_
  by_contra ne
  have upper := (first.lowest other info' offers' (Ne.symm ne)).lt
  have lower := (second.lowest method info offers ne).lt
  omega

theorem Unbounded.selected (unbounded : Unbounded hier sig self)
    (offers : Offers hier sig self method info) :
    selectAll hier.extend (hier.abstractIn sig)
      (hier.candidates sig self) = .conflict := by
  apply selectAll_conflict extend_trans
  · intro iface mem
    obtain ⟨current, info', offers', rfl⟩ := mem_candidates_iff.mp mem
    obtain ⟨other, info'', offers'', strong, ne, unrelated⟩ := unbounded current info' offers'
    refine ⟨other.owner, mem_candidates_iff.mpr ⟨other, info'', offers'', rfl⟩, ?_, ne,
      extend_eq_false unrelated⟩
    rw [offers''.candidate.abstractIn]
    exact strong
  · exact ne_nil_of_mem (mem_candidates_iff.mpr ⟨method, info, offers, rfl⟩)

theorem AllAbstract.selected (allAbstract : AllAbstract hier sig self)
    (offers : Offers hier sig self method info) :
    ∃ method info, Offers hier sig self method info ∧ selectAll hier.extend (hier.abstractIn sig)
        (hier.candidates sig self) = .chosen method.owner := by
  have weak : ∀ iface ∈ hier.candidates sig self, hier.abstractIn sig iface = true := by
    intro iface mem
    obtain ⟨other, info', offers', rfl⟩ := mem_candidates_iff.mp mem
    rw [offers'.candidate.abstractIn]
    exact allAbstract other info' offers'
  obtain ⟨iface, mem, found⟩ := selectAll_weak hier.extend weak
    (ne_nil_of_mem (mem_candidates_iff.mpr ⟨method, info, offers, rfl⟩))
  obtain ⟨other, info', offers', rfl⟩ := mem_candidates_iff.mp mem
  exact ⟨other, info', offers', found⟩

theorem bridge_of_chosen (only : DefaultOnly hier sig table) (mem : entry ∈ table)
    (same : entry.signature = sig) (candidate : Candidate hier sig method info)
    (chosen : entry.origin.selection = .chosen method.owner) : entry.origin = .bridge method := by
  cases origin : entry.origin with
  | declared => exact absurd origin (only.miranda entry mem same)
  | conflict =>
    rw [origin] at chosen
    cases chosen
  | bridge target =>
    rw [origin] at chosen
    obtain ⟨info', candidate', -⟩ := only.bridges entry mem same target origin
    rw [candidate'.eq_of_owner candidate (Selection.chosen.inj chosen)]

/-- The most specific interface comes first, and the two it extends are not related. -/
def specificOnly : Hierarchy :=
  ofFiles [⟨"java/lang/Object".toList, 0, false, none, [], []⟩,
    ⟨"p/I1".toList, 0, true, some 0, [], [shown true]⟩,
    ⟨"p/I2".toList, 0, true, some 0, [], [shown true]⟩,
    ⟨"p/J".toList, 0, true, some 0, [1, 2], [shown true]⟩,
    ⟨"p/C".toList, 0, false, some 0, [3], []⟩] (by decide)

def specificLast : Hierarchy :=
  ofFiles [⟨"java/lang/Object".toList, 0, false, none, [], []⟩,
    ⟨"p/I1".toList, 0, true, some 0, [], [shown true]⟩,
    ⟨"p/I2".toList, 0, true, some 0, [], [shown true]⟩,
    ⟨"p/J".toList, 0, true, some 0, [1, 2], [shown true]⟩,
    ⟨"p/C".toList, 0, false, some 0, [1, 2, 3], []⟩] (by decide)

def specificFirst : Hierarchy :=
  ofFiles [⟨"java/lang/Object".toList, 0, false, none, [], []⟩,
    ⟨"p/I1".toList, 0, true, some 0, [], [shown true]⟩,
    ⟨"p/I2".toList, 0, true, some 0, [], [shown true]⟩,
    ⟨"p/J".toList, 0, true, some 0, [1, 2], [shown true]⟩,
    ⟨"p/C".toList, 0, false, some 0, [3, 1, 2], []⟩] (by decide)

end JamVM.Class.Hierarchy
