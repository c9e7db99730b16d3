import Mathlib.Algebra.Order.BigOperators.Group.Finset
import JamVM.Alloc.Mark

/-! # Marking computes a closure

The references that `markChildren` follows are the edges of a graph. The mark
stack may overflow and the scan pointer keeps objects off it, but after
`scanHeapAndMark` every edge out of a marked object leads to a marked object.
-/

namespace JamVM.Alloc

open Nat List Function

/-! ## Edges -/

/-- Along a strong edge the mark is passed on; the referent of a phantom
reference gets a mark of its own. -/
inductive Strength
  | strong
  | phantom
  deriving DecidableEq

def Strength.mark : Strength → Mark → Mark
  | .strong, mark => mark
  | .phantom, _ => phantomMark

def strongly (references : List Reference) : List (Reference × Strength) :=
  references.map (·, .strong)

section
variable (cfg : Config) (heap : Heap cfg.platform) (soft : Bool)

def referentChildren (kind : ReferenceKind) (object : Object) : List (Reference × Strength) :=
  let referent := object.field cfg.referentOffset
  match kind with
  | .weak => []
  | .phantom => [(referent, .phantom)]
  | .soft => if soft then [(referent, .strong)] else []
  | .plain => [(referent, .strong)]

def classChildren (object : Object) : List Reference :=
  match object.classBlock with
  | some data => data.classLoader :: data.staticReferences ++ data.constantObjects
  | none => []

def specialChildren (addr : Nat) (cb : ClassBlock) (object : Object) :
    List (Reference × Strength) :=
  if cb.isSpecial then
    if cb.flags.classClass then
      strongly (classChildren object)
    else if cb.flags.classLoader then
      strongly (loaderClasses cfg heap addr object)
    else
      match cb.flags.reference with
      | some kind => referentChildren cfg soft kind object
      | none => strongly (if cb.flags.vmThrowable then object.backtrace else [])
  else
    []

def children (addr : Nat) : List (Reference × Strength) :=
  match heap.objectAt addr with
  | none => []
  | some object =>
    match object.classRef, object.classRef.bind heap.classBlock with
    | some type, some cb =>
      (some type, .strong) ::
        if cb.hasArrayName then
          strongly (if cb.hasReferenceElements then object.elements else [])
        else
          specialChildren cfg heap soft addr cb object ++
            strongly ((cb.referenceOffsets cfg.platform.wordSize).map object.field)
    | _, _ => []

namespace Marking

def markChild (mark : Mark) (marking : Marking) (child : Reference × Strength) : Marking :=
  marking.markObject cfg child.1 (child.2.mark mark)

section
variable (marking : Marking)
include marking

theorem markReferences_eq (references : List Reference) (mark : Mark) :
    marking.markReferences cfg references mark =
      (strongly references).foldl (markChild cfg mark) marking := by
  rw [strongly, foldl_map]
  rfl

theorem markObject_zero (reference : Reference) : marking.markObject cfg reference 0 = marking := by
  cases reference with
  | none => rfl
  | some => simp [markObject]

theorem markReferent_eq (kind : ReferenceKind) (object : Object) (mark : Mark) :
    marking.markReferent cfg soft kind object mark =
      (referentChildren cfg soft kind object).foldl (markChild cfg mark) marking := by
  cases kind with
  | soft =>
    simp only [markReferent, referentChildren]
    split
    · rfl
    · exact markObject_zero ..
  | _ => rfl

theorem markClassData_eq (data : ClassBlock) (mark : Mark) : marking.markClassData cfg data mark =
      (strongly (data.classLoader :: data.staticReferences ++ data.constantObjects)).foldl
        (markChild cfg mark) marking := by
  rw [strongly, map_append, map_cons, foldl_append, foldl_cons]
  simp only [markClassData, markReferences_eq]
  rfl

theorem markSpecial_eq (addr : Nat) (cb : ClassBlock) (object : Object) (mark : Mark) :
    marking.markSpecial cfg heap soft addr cb object mark =
      (specialChildren cfg heap soft addr cb object).foldl (markChild cfg mark) marking := by
  unfold markSpecial specialChildren
  split
  · split
    · unfold classChildren
      cases object.classBlock with
      | none => rfl
      | some => exact markClassData_eq ..
    · split
      · exact markReferences_eq ..
      · cases cb.flags.reference with
        | some => exact markReferent_eq ..
        | none =>
          simp only [markVMThrowable]
          split
          · exact markReferences_eq ..
          · rfl
  · rfl

theorem markChildren_eq (addr : Nat) (mark : Mark) : marking.markChildren cfg heap soft addr mark =
      (children cfg heap soft addr).foldl (markChild cfg mark) marking := by
  unfold markChildren children
  cases heap.objectAt addr with
  | none => rfl
  | some object =>
    dsimp only
    cases object.classRef with
    | none => rfl
    | some type =>
      dsimp only [Option.bind_some]
      cases heap.classBlock type with
      | none => rfl
      | some =>
        dsimp only
        rw [foldl_cons]
        split
        · split
          · exact markReferences_eq ..
          · rfl
        · rw [foldl_append, markReferences_eq, markSpecial_eq]
          rfl

end

end Marking

/-! ## Raising marks along edges -/

def Raise (bound : Mark) (marks next : Nat → Mark) : Prop :=
  ∃ source target strength, (some target, strength) ∈ children cfg heap soft source ∧
    marks source ≠ 0 ∧ marks source ≤ bound ∧ marks target < strength.mark (marks source) ∧
    next = update marks target (strength.mark (marks source))

def Raised (bound : Mark) : (Nat → Mark) → (Nat → Mark) → Prop :=
  Relation.ReflTransGen (Raise cfg heap soft bound)

variable {cfg heap soft}

variable {mark bound level : Mark} {marks next : Nat → Mark} {addr : Nat}

theorem Strength.mark_le (strength : Strength) (marked : mark ≠ 0) : strength.mark mark ≤ mark := by
  cases strength with
  | strong => exact le_rfl
  | phantom => exact Fin.one_le_of_ne_zero marked

theorem Strength.mark_ne_zero {strength : Strength} (marked : mark ≠ 0) :
    strength.mark mark ≠ 0 := by
  cases strength with
  | strong => exact marked
  | phantom => exact Fin.zero_ne_one.symm

section
variable (raise : Raise cfg heap soft bound marks next)
include raise

theorem Raise.le (addr : Nat) : marks addr ≤ next addr := by
  obtain ⟨source, target, strength, -, -, -, less, rfl⟩ := raise
  exact le_update_self_iff.mpr less.le addr

theorem Raise.eq_of_bound_le (high : bound ≤ marks addr) : next addr = marks addr := by
  obtain ⟨source, target, strength, -, marked, low, less, rfl⟩ := raise
  apply update_of_ne
  rintro rfl
  have limited := (strength.mark_le marked).trans low
  exact absurd (high.trans_lt less) (not_lt.mpr limited)

theorem Raise.le_bound (low : marks addr ≤ bound) : next addr ≤ bound := by
  obtain ⟨source, target, strength, -, marked, limited, -, rfl⟩ := raise
  rw [update_apply]
  split
  · exact (strength.mark_le marked).trans limited
  · exact low

end

theorem Raised.invariant (holds : (Nat → Mark) → Prop)
    (preserved : ∀ marks next, Raise cfg heap soft bound marks next →
      holds marks → holds next) (raised : Raised cfg heap soft bound marks next)
    (initially : holds marks) : holds next := by
  induction raised with
  | refl => exact initially
  | tail _ raise ih => exact preserved _ _ raise ih

theorem Raised.mono (raised : Raised cfg heap soft bound marks next) (le : bound ≤ level) :
    Raised cfg heap soft level marks next := by
  refine Relation.ReflTransGen.mono ?_ _ _ raised
  rintro _ _ ⟨source, target, strength, child, marked, low, rest⟩
  exact ⟨source, target, strength, child, marked, low.trans le, rest⟩

theorem Raised.le (raised : Raised cfg heap soft bound marks next) (addr : Nat) :
    marks addr ≤ next addr := by
  induction raised with
  | refl => exact le_rfl
  | tail _ raise ih => exact ih.trans (raise.le addr)

theorem Raised.eq_of_bound_le (raised : Raised cfg heap soft bound marks next)
    (high : bound ≤ marks addr) : next addr = marks addr := by
  induction raised with
  | refl => rfl
  | tail _ raise ih => rw [raise.eq_of_bound_le (ih ▸ high), ih]

def potential (limit : Nat) (marks : Nat → Mark) : Nat :=
  ∑ addr ∈ Finset.range limit, (3 - (marks addr).val)

theorem potential_le_of_le (limit : Nat) (grows : ∀ addr, marks addr ≤ next addr) :
    potential limit next ≤ potential limit marks := by
  apply Finset.sum_le_sum
  intro addr _
  have value : (marks addr).val ≤ (next addr).val := grows addr
  omega

theorem potential_le (limit : Nat) (marks : Nat → Mark) : potential limit marks ≤ 3 * limit := by
  calc potential limit marks ≤ ∑ _address ∈ Finset.range limit, 3 :=
        Finset.sum_le_sum fun _ _ => sub_le _ _
    _ = 3 * limit := by simp [mul_comm]

theorem potential_update_lt (inside : target < limit) (less : marks target < mark) :
    potential limit (update marks target mark) < potential limit marks := by
  apply Finset.sum_lt_sum
  · intro addr _
    rw [update_apply]
    split
    · rename_i same
      have value : (marks target).val < mark.val := less
      rw [same]
      omega
    · exact le_rfl
  · refine ⟨target, Finset.mem_range.mpr inside, ?_⟩
    have value : (marks target).val < mark.val := less
    rw [update_self]
    omega

/-! ## Objects that remain to be processed -/

def Strength.Carries (strength : Strength) (level : Mark) : Prop :=
  strength = .strong ∨ level ≤ phantomMark

theorem Strength.Carries.le_mark {strength : Strength}
    (carries : strength.Carries level) (high : level ≤ mark) : level ≤ strength.mark mark := by
  cases strength with
  | strong => exact high
  | phantom => exact carries.resolve_left nofun

variable (cfg heap soft) in
def Settled (level : Mark) (marks : Nat → Mark) (addr : Nat) : Prop :=
  level ≤ marks addr → ∀ target strength, (some target, strength) ∈ children cfg heap soft addr →
      strength.Carries level → level ≤ marks target

variable (cfg heap soft) in
def Covered (level : Mark) (marking : Marking) (addr : Nat) : Prop :=
  marking.scanPtr ≤ addr ∨ addr ∈ marking.stack ∨ marking.overflow ≠ 0 ∨
    Settled cfg heap soft level marking.marks addr

theorem Settled.mono (settled : Settled cfg heap soft level marks addr)
    (grows : ∀ addr, marks addr ≤ next addr)
    (same : next addr = marks addr) :
    Settled cfg heap soft level next addr := by
  intro high target strength child carries
  rw [same] at high
  exact (settled high target strength child carries).trans (grows target)

theorem Settled.of_no_object (nothing : heap.objectAt addr = none) :
    Settled cfg heap soft level marks addr := by
  intro _ target strength child
  simp [children, nothing] at child

theorem lost_trans {limit before middle after : Nat}
    (pre : ∀ addr, start addr ≤ between addr) (post : ∀ addr, between addr ≤ last addr)
    (overflow : before ≤ middle)
    (lostBefore : before < middle → potential limit between < potential limit start)
    (lostAfter : middle < after → potential limit last < potential limit between)
    (grows : before < after) : potential limit last < potential limit start := by
  rcases overflow.lt_or_eq with lost | same
  · exact (potential_le_of_le _ post).trans_lt (lostBefore lost)
  · exact (lostAfter (same ▸ grows)).trans_le (potential_le_of_le _ pre)

variable (cfg heap soft) in
structure Advance (bound : Mark) (pre post : Marking) : Prop where
  raised : Raised cfg heap soft bound pre.marks post.marks
  scanPtr : post.scanPtr = pre.scanPtr
  conservativeRoots : post.conservativeRoots = pre.conservativeRoots
  overflow : pre.overflow ≤ post.overflow
  kept : ∀ addr ∈ pre.stack, addr ∈ post.stack
  pushed : (∀ addr ∈ pre.stack, pre.marks addr ≠ 0 ∧ pre.marks addr ≤ bound) →
    ∀ addr ∈ post.stack, post.marks addr ≠ 0 ∧ post.marks addr ≤ bound
  covered : ∀ level addr, Covered cfg heap soft level pre addr →
    Covered cfg heap soft level post addr
  rank : pre.scanPtr ≤ heap.limit → potential heap.limit post.marks + post.stack.length ≤
      potential heap.limit pre.marks + pre.stack.length
  lost : pre.scanPtr ≤ heap.limit → pre.overflow < post.overflow →
    potential heap.limit post.marks < potential heap.limit pre.marks

theorem Advance.refl (bound : Mark) (marking : Marking) :
    Advance cfg heap soft bound marking marking :=
  ⟨.refl, rfl, rfl, le_rfl, fun _ => id, id, fun _ _ => id, fun _ => le_rfl,
    fun _ wrong => absurd wrong (lt_irrefl _)⟩

theorem Advance.trans (pre : Advance cfg heap soft bound first second)
    (post : Advance cfg heap soft bound second third) :
    Advance cfg heap soft bound first third where
  raised := pre.raised.trans post.raised
  scanPtr := post.scanPtr.trans pre.scanPtr
  conservativeRoots := post.conservativeRoots.trans pre.conservativeRoots
  overflow := pre.overflow.trans post.overflow
  kept addr mem := post.kept addr (pre.kept addr mem)
  pushed below := post.pushed (pre.pushed below)
  covered level addr isCovered := post.covered level addr (pre.covered level addr isCovered)
  rank inside := (post.rank (pre.scanPtr ▸ inside)).trans (pre.rank inside)
  lost inside := lost_trans pre.raised.le post.raised.le pre.overflow (pre.lost inside)
    (post.lost (pre.scanPtr ▸ inside))

namespace Marking

variable (cfg) in
theorem markAndPush_cases (marking : Marking) (target : Nat) (mark : Mark) :
    (marking.markAndPush cfg target mark).marks = update marking.marks target mark ∧
    (marking.markAndPush cfg target mark).scanPtr = marking.scanPtr ∧
    (marking.markAndPush cfg target mark).conservativeRoots = marking.conservativeRoots ∧
    (marking.scanPtr ≤ target ∧ (marking.markAndPush cfg target mark).stack = marking.stack ∧
        (marking.markAndPush cfg target mark).overflow = marking.overflow ∨
      target < marking.scanPtr ∧ (marking.markAndPush cfg target mark).stack = marking.stack ∧
        (marking.markAndPush cfg target mark).overflow = marking.overflow + 1 ∨
      target < marking.scanPtr ∧
        (marking.markAndPush cfg target mark).stack = target :: marking.stack ∧
        (marking.markAndPush cfg target mark).overflow = marking.overflow) := by
  unfold markAndPush
  dsimp only
  split
  · rename_i below
    split
    · exact ⟨rfl, rfl, rfl, .inr (.inl ⟨below, rfl, rfl⟩)⟩
    · exact ⟨rfl, rfl, rfl, .inr (.inr ⟨below, rfl, rfl⟩)⟩
  · rename_i above
    exact ⟨rfl, rfl, rfl, .inl ⟨Nat.le_of_not_lt above, rfl, rfl⟩⟩

variable {marking : Marking} {addr source : Nat} {bound : Mark} {block : Block}
  {blocks : List Block}

theorem covered_markAndPush (covered : Covered cfg heap soft level marking addr)
    (kept : addr ≠ target → Settled cfg heap soft level marking.marks addr →
      Settled cfg heap soft level (update marking.marks target mark) addr) :
    Covered cfg heap soft level (marking.markAndPush cfg target mark) addr := by
  obtain ⟨marks, scanPtr, -, outcome⟩ := markAndPush_cases cfg marking target mark
  unfold Covered
  rw [scanPtr]
  obtain rfl | isTarget := eq_or_ne addr target
  · rcases outcome with ⟨above, -, -⟩ | ⟨-, -, lost⟩ | ⟨-, pushed, -⟩
    · exact .inl above
    · exact .inr (.inr (.inl (by omega)))
    · exact .inr (.inl (by simp [pushed]))
  · rcases covered with above | mem | lost | settled
    · exact .inl above
    · refine .inr (.inl ?_)
      rcases outcome with ⟨-, stack, -⟩ | ⟨-, stack, -⟩ | ⟨-, stack, -⟩ <;> simp [stack, mem]
    · refine .inr (.inr (.inl ?_))
      rcases outcome with ⟨-, -, overflow⟩ | ⟨-, -, overflow⟩ | ⟨-, -, overflow⟩ <;> omega
    · rw [marks]
      exact .inr (.inr (.inr (kept isTarget settled)))

theorem markAndPush_covered (less : marking.marks target < mark)
    (covered : Covered cfg heap soft level marking addr) :
    Covered cfg heap soft level (marking.markAndPush cfg target mark) addr := by
  refine covered_markAndPush covered fun isTarget settled =>
    settled.mono (le_update_self_iff.mpr less.le) ?_
  rw [update_of_ne isTarget]

theorem markAndPush_advance (child : (some target, strength) ∈ children cfg heap soft source)
    (marked : marking.marks source ≠ 0) (low : marking.marks source ≤ bound)
    (less : marking.marks target < strength.mark (marking.marks source)) :
    Advance cfg heap soft bound marking
      (marking.markAndPush cfg target (strength.mark (marking.marks source))) := by
  have raise : Raise cfg heap soft bound marking.marks
      (update marking.marks target (strength.mark (marking.marks source))) :=
    ⟨source, target, strength, child, marked, low, less, rfl⟩
  obtain ⟨marks, scanPtr, roots, outcome⟩ := markAndPush_cases cfg marking target
    (strength.mark (marking.marks source))
  refine ⟨marks ▸ .single raise, scanPtr, roots, ?_, ?_, ?_, ?_, ?_, ?_⟩
  · rcases outcome with ⟨-, -, overflow⟩ | ⟨-, -, overflow⟩ | ⟨-, -, overflow⟩ <;> omega
  · intro addr mem
    rcases outcome with ⟨-, stack, -⟩ | ⟨-, stack, -⟩ | ⟨-, stack, -⟩ <;> simp [stack, mem]
  · intro below addr mem
    have old (isOld : addr ∈ marking.stack) :
        update marking.marks target (strength.mark (marking.marks source)) addr ≠ 0 ∧
        update marking.marks target (strength.mark (marking.marks source)) addr ≤ bound := by
      have limits := below addr isOld
      refine ⟨fun zero => limits.1 ?_, raise.le_bound limits.2⟩
      exact le_antisymm ((raise.le addr).trans_eq zero) (Fin.zero_le _)
    rw [marks]
    rcases outcome with ⟨-, stack, -⟩ | ⟨-, stack, -⟩ | ⟨-, stack, -⟩
    · exact old (stack ▸ mem)
    · exact old (stack ▸ mem)
    · rw [stack, mem_cons] at mem
      rcases mem with rfl | isOld
      · rw [update_self]
        exact ⟨Strength.mark_ne_zero marked, (strength.mark_le marked).trans low⟩
      · exact old isOld
  · exact fun level addr => markAndPush_covered less
  · intro inside
    have bounded := potential_le_of_le heap.limit raise.le
    rw [marks]
    rcases outcome with ⟨-, stack, -⟩ | ⟨-, stack, -⟩ | ⟨below, stack, -⟩
    · rw [stack]
      omega
    · rw [stack]
      omega
    · have lower := potential_update_lt (below.trans_le inside) less
      rw [stack, length_cons]
      omega
  · intro inside lost
    rw [marks]
    rcases outcome with ⟨-, -, overflow⟩ | ⟨below, -, -⟩ | ⟨-, -, overflow⟩
    · omega
    · exact potential_update_lt (below.trans_le inside) less
    · omega

theorem markChild_advance (isChild : child ∈ children cfg heap soft source)
    (marked : marking.marks source ≠ 0) (low : marking.marks source ≤ bound) :
    Advance cfg heap soft bound marking (markChild cfg (marking.marks source) marking child) ∧
    ∀ target, child.1 = some target → child.2.mark (marking.marks source) ≤
        (markChild cfg (marking.marks source) marking child).marks target := by
  obtain ⟨reference, strength⟩ := child
  cases reference with
  | none => exact ⟨.refl bound marking, nofun⟩
  | some target =>
    simp only [markChild, markObject]
    split
    · rename_i less
      refine ⟨markAndPush_advance isChild marked low less, ?_⟩
      rintro _ ⟨⟩
      rw [(markAndPush_cases cfg marking target _).1, update_self]
    · rename_i atLeast
      refine ⟨.refl bound marking, ?_⟩
      rintro _ ⟨⟩
      exact not_lt.mp atLeast

theorem foldl_markChild_advance
    (marked : marking.marks source ≠ 0) (low : marking.marks source ≤ bound)
    (list : List (Reference × Strength))
    (areChildren : ∀ child ∈ list, child ∈ children cfg heap soft source) :
    Advance cfg heap soft bound marking
      (list.foldl (markChild cfg (marking.marks source)) marking) ∧
    ∀ child ∈ list, ∀ target, child.1 = some target → child.2.mark (marking.marks source) ≤
        (list.foldl (markChild cfg (marking.marks source)) marking).marks target := by
  induction list generalizing marking with
  | nil => exact ⟨.refl bound marking, nofun⟩
  | cons child rest ih =>
    have isChild := areChildren child (by simp)
    have same : (markChild cfg (marking.marks source) marking child).marks source =
        marking.marks source :=
      (markChild_advance isChild marked le_rfl).1.raised.eq_of_bound_le le_rfl
    obtain ⟨first, done⟩ := markChild_advance isChild marked low
    obtain ⟨others, settled⟩ := ih (by rwa [same]) (by rwa [same])
      fun child mem => areChildren child (by simp [mem])
    rw [same] at others settled
    refine ⟨first.trans others, ?_⟩
    intro found mem target isTarget
    rcases mem_cons.mp mem with rfl | later
    · exact (done target isTarget).trans (others.raised.le target)
    · exact settled found later target isTarget

theorem markChildren_advance
    (marked : marking.marks source ≠ 0) (low : marking.marks source ≤ bound) :
    Advance cfg heap soft bound marking
      (marking.markChildren cfg heap soft source (marking.marks source)) := by
  rw [markChildren_eq]
  exact (foldl_markChild_advance marked low _ fun _ => id).1

theorem markChildren_settled (marking : Marking)
    (marked : marking.marks source ≠ 0) (level : Mark) :
    Settled cfg heap soft level
      (marking.markChildren cfg heap soft source (marking.marks source)).marks
        source := by
  have advance : Advance cfg heap soft (marking.marks source) marking _ :=
    markChildren_advance marked le_rfl
  intro high target strength child carries
  rw [advance.raised.eq_of_bound_le le_rfl] at high
  apply (carries.le_mark high).trans
  rw [markChildren_eq]
  exact (foldl_markChild_advance marked le_rfl _ fun _ => id).2 _ child target rfl

/-! ## The mark stack -/

def StackBelow (bound : Mark) (marking : Marking) : Prop :=
  ∀ addr ∈ marking.stack, marking.marks addr ≠ 0 ∧ marking.marks addr ≤ bound

variable (cfg heap soft) in
structure Drain (bound : Mark) (pre post : Marking) : Prop where
  raised : Raised cfg heap soft bound pre.marks post.marks
  scanPtr : post.scanPtr = pre.scanPtr
  conservativeRoots : post.conservativeRoots = pre.conservativeRoots
  overflow : pre.overflow ≤ post.overflow
  below : StackBelow bound post
  covered : ∀ level, (∀ addr, Covered cfg heap soft level pre addr) →
    ∀ addr, Covered cfg heap soft level post addr
  lost : pre.scanPtr ≤ heap.limit → pre.overflow < post.overflow →
    potential heap.limit post.marks < potential heap.limit pre.marks

theorem Drain.trans (pre : Drain cfg heap soft bound first second)
    (post : Drain cfg heap soft bound second third) :
    Drain cfg heap soft bound first third where
  raised := pre.raised.trans post.raised
  scanPtr := post.scanPtr.trans pre.scanPtr
  conservativeRoots := post.conservativeRoots.trans pre.conservativeRoots
  overflow := pre.overflow.trans post.overflow
  below := post.below
  covered level isCovered := post.covered level (pre.covered level isCovered)
  lost inside := lost_trans pre.raised.le post.raised.le pre.overflow (pre.lost inside)
    (post.lost (pre.scanPtr ▸ inside))

section
variable (below : StackBelow bound marking)
include below

theorem popAndMark_drain :
    Drain cfg heap soft bound marking (marking.popAndMark cfg heap soft) := by
  unfold popAndMark
  split
  · exact ⟨.refl, rfl, rfl, le_rfl, below, fun _ => id, fun _ wrong => absurd wrong (lt_irrefl _)⟩
  · rename_i object rest isStack
    have limits := below object (by simp [isStack])
    have advance : Advance cfg heap soft bound { marking with stack := rest } _ :=
      markChildren_advance limits.1 limits.2
    refine ⟨advance.raised, advance.scanPtr, advance.conservativeRoots, advance.overflow,
      advance.pushed fun addr mem => below addr (by simp [isStack, mem]), ?_,
      advance.lost⟩
    intro level covered addr
    obtain rfl | isObject := eq_or_ne addr object
    · exact .inr (.inr (.inr (markChildren_settled { marking with stack := rest } limits.1 level)))
    · apply advance.covered level addr
      rcases covered addr with above | mem | lost | settled
      · exact .inl above
      · rw [isStack, mem_cons] at mem
        exact .inr (.inl (mem.resolve_left isObject))
      · exact .inr (.inr (.inl lost))
      · exact .inr (.inr (.inr settled))

theorem popAndMark_rank (inside : marking.scanPtr ≤ heap.limit) (nonempty : marking.stack ≠ []) :
    potential heap.limit (marking.popAndMark cfg heap soft).marks +
        (marking.popAndMark cfg heap soft).stack.length <
      potential heap.limit marking.marks + marking.stack.length := by
  unfold popAndMark
  split
  · exact absurd (by assumption) nonempty
  · rename_i object rest isStack
    have limits := below object (by simp [isStack])
    have advance : Advance cfg heap soft bound { marking with stack := rest } _ :=
      markChildren_advance limits.1 limits.2
    rw [isStack, length_cons]
    exact lt_succ_of_le (advance.rank inside)

theorem markStack_drain : Drain cfg heap soft bound marking (marking.markStack cfg heap soft) := by
  refine whileLoop_invariant (Drain cfg heap soft bound marking) ?_ _ ?_
  · exact fun state drain _ => drain.trans (popAndMark_drain drain.below)
  · exact ⟨.refl, rfl, rfl, le_rfl, below, fun _ => id, fun _ wrong => absurd wrong (lt_irrefl _)⟩

theorem markStack_stack (inside : marking.scanPtr ≤ heap.limit) :
    (marking.markStack cfg heap soft).stack = [] := by
  have exit := whileLoop_exit (fun marking => !marking.stack.isEmpty) (popAndMark cfg heap soft)
    (fun state => StackBelow bound state ∧ state.scanPtr ≤ heap.limit)
    (fun state => potential heap.limit state.marks + state.stack.length)
    ?_ ?_ (marking.markStackRounds cfg heap) marking ⟨below, inside⟩ ?_
  · simpa [markStack] using exit
  · rintro state ⟨stackBelow, isInside⟩ _
    have drain : Drain cfg heap soft bound state _ := popAndMark_drain stackBelow
    exact ⟨drain.below, drain.scanPtr ▸ isInside⟩
  · rintro state ⟨stackBelow, isInside⟩ continues
    exact popAndMark_rank stackBelow isInside (by simpa using continues)
  · exact Nat.add_le_add_right (potential_le heap.limit marking.marks) _

end

/-! ## The heap scan -/

variable (cfg heap soft) in
structure Scan (pre post : Marking) : Prop where
  raised : Raised cfg heap soft hardMark pre.marks post.marks
  conservativeRoots : post.conservativeRoots = pre.conservativeRoots
  stack : post.stack = []
  overflow : pre.overflow ≤ post.overflow
  lost : pre.overflow < post.overflow →
    potential heap.limit post.marks < potential heap.limit pre.marks

theorem Scan.trans (pre : Scan cfg heap soft first second)
    (post : Scan cfg heap soft second third) :
    Scan cfg heap soft first third where
  raised := pre.raised.trans post.raised
  conservativeRoots := post.conservativeRoots.trans pre.conservativeRoots
  stack := post.stack
  overflow := pre.overflow.trans post.overflow
  lost := lost_trans pre.raised.le post.raised.le pre.overflow pre.lost post.lost

variable (cfg heap soft) in
def Finished (level : Mark) (marking : Marking) (addr : Nat) : Prop :=
  marking.overflow ≠ 0 ∨ Settled cfg heap soft level marking.marks addr

theorem scanBlock_scan (empty : marking.stack = []) (inside : addr ≤ heap.limit) :
    Scan cfg heap soft marking (marking.scanBlock cfg heap soft addr block) := by
  unfold scanBlock
  dsimp only
  split
  · rename_i scanned
    have marked := bne_iff_ne.mp (Bool.and_eq_true_iff.mp scanned).2
    have advance : Advance cfg heap soft hardMark { marking with scanPtr := addr } _ :=
      markChildren_advance marked (Fin.le_last _)
    have below := advance.pushed (by simp [empty])
    have drain : Drain cfg heap soft hardMark _ _ := markStack_drain below
    refine ⟨advance.raised.trans drain.raised,
      drain.conservativeRoots.trans advance.conservativeRoots,
      markStack_stack below (advance.scanPtr.trans_le inside),
      advance.overflow.trans drain.overflow, ?_⟩
    exact lost_trans advance.raised.le drain.raised.le advance.overflow (advance.lost inside)
      (drain.lost (advance.scanPtr.trans_le inside))
  · exact ⟨.refl, rfl, empty, le_rfl, fun wrong => absurd wrong (lt_irrefl _)⟩

theorem scanBlock_finished (level : Mark) (empty : marking.stack = []) (inside : addr ≤ heap.limit)
    (earlier : ∀ other < addr, Finished cfg heap soft level marking other)
    (other : Nat)
    (reached : other < addr ∨ other = addr + cfg.platform.headerSize ∧ block.object.isSome = true) :
    Finished cfg heap soft level (marking.scanBlock cfg heap soft addr block) other := by
  have start : ∀ other, Covered cfg heap soft level
      { marking with scanPtr := addr } other := by
    intro other
    by_cases isEarlier : other < addr
    · rcases earlier other isEarlier with lost | settled
      · exact .inr (.inr (.inl lost))
      · exact .inr (.inr (.inr settled))
    · exact .inl (Nat.le_of_not_lt isEarlier)
  unfold scanBlock
  dsimp only
  split
  · rename_i scanned
    have marked := bne_iff_ne.mp (Bool.and_eq_true_iff.mp scanned).2
    have advance : Advance cfg heap soft (marking.marks (addr + cfg.platform.headerSize))
        { marking with scanPtr := addr } _ := markChildren_advance marked le_rfl
    have below := advance.pushed (by simp [empty])
    have drain : Drain cfg heap soft
        (marking.marks (addr + cfg.platform.headerSize)) _ _ := markStack_drain below
    rcases reached with isEarlier | ⟨rfl, -⟩
    · have covered := drain.covered level
        (fun other => advance.covered level other (start other)) other
      rcases covered with above | mem | lost | settled
      · rw [drain.scanPtr, advance.scanPtr] at above
        exact absurd isEarlier (Nat.not_lt.mpr above)
      · rw [markStack_stack below (advance.scanPtr.trans_le inside)] at mem
        cases mem
      · exact .inl lost
      · exact .inr settled
    · refine .inr (Settled.mono
        (markChildren_settled { marking with scanPtr := addr } marked level) drain.raised.le ?_)
      apply drain.raised.eq_of_bound_le
      rw [advance.raised.eq_of_bound_le le_rfl]
  · rename_i unscanned
    rcases reached with isEarlier | ⟨rfl, allocated⟩
    · exact earlier other isEarlier
    · have unmarked : marking.marks (addr + cfg.platform.headerSize) = 0 := by
        simpa [allocated] using unscanned
      refine .inr fun high target _ _ _ => ?_
      have zero : level ≤ 0 := unmarked ▸ high
      exact zero.trans (Fin.zero_le _)

structure Suffix (heap : Heap cfg.platform) (addr : Nat) (blocks : List Block) : Prop where
  valid : ∀ block ∈ blocks, block.Valid cfg.platform
  objectAt : ∀ other, addr ≤ other →
    heap.objectAt other = Heap.objectFrom cfg.platform other addr blocks
  limit : addr + (blocks.map Block.size).sum = heap.limit

theorem Suffix.tail (suffix : Suffix heap addr (block :: rest)) :
    Suffix heap (addr + block.size) rest where
  valid other mem := suffix.valid other (by simp [mem])
  objectAt other above := by
    rw [suffix.objectAt other (by omega), Heap.objectFrom]
    split
    · rename_i found isObject
      have fits := (suffix.valid block (by simp)).allocated (by simp [isObject])
      have header := cfg.platform.headerSize_lt_minObjectSize
      rw [if_neg (by omega)]
    · rfl
  limit := by
    rw [← suffix.limit, map_cons, sum_cons]
    omega

theorem Suffix.object_of_lt (suffix : Suffix heap addr (block :: rest)) (above : addr ≤ other)
    (below : other < addr + block.size) (isObject : heap.objectAt other ≠ none) :
    other = addr + cfg.platform.headerSize ∧ block.object.isSome = true := by
  have outside : Heap.objectFrom cfg.platform other (addr + block.size) rest = none :=
    Heap.objectFrom_of_lt (by omega)
  rw [suffix.objectAt other above, Heap.objectFrom] at isObject
  cases isBlock : block.object with
  | none => simp [isBlock, outside] at isObject
  | some =>
    refine ⟨?_, rfl⟩
    by_contra ne
    simp [isBlock, ne, outside] at isObject

theorem Suffix.start (heap : Heap cfg.platform) : Suffix heap heap.base heap.blocks :=
  ⟨heap.valid, fun _ _ => rfl, rfl⟩

theorem scanBlocks_scan (suffix : Suffix heap addr blocks) (empty : marking.stack = []) :
    Scan cfg heap soft marking (marking.scanBlocks cfg heap soft addr blocks) := by
  induction blocks generalizing marking addr with
  | nil => exact ⟨.refl, rfl, empty, le_rfl, fun wrong => absurd wrong (lt_irrefl _)⟩
  | cons block rest ih =>
    have inside : addr ≤ heap.limit := suffix.limit ▸ le_add_right _ _
    have first : Scan cfg heap soft marking
        (marking.scanBlock cfg heap soft addr block) := scanBlock_scan empty inside
    exact first.trans (ih suffix.tail first.stack)

theorem scanBlocks_finished
    (level : Mark) (suffix : Suffix heap addr blocks) (empty : marking.stack = [])
    (earlier : ∀ other < addr, Finished cfg heap soft level marking other)
    (other : Nat) :
    Finished cfg heap soft level (marking.scanBlocks cfg heap soft addr blocks) other := by
  induction blocks generalizing marking addr with
  | nil =>
    by_cases isEarlier : other < addr
    · exact earlier other isEarlier
    · refine .inr (Settled.of_no_object ?_)
      rw [suffix.objectAt other (Nat.le_of_not_lt isEarlier)]
      rfl
  | cons block rest ih =>
    have inside : addr ≤ heap.limit := suffix.limit ▸ le_add_right _ _
    refine ih suffix.tail (scanBlock_scan empty inside).stack ?_
    intro found below
    by_cases isObject : heap.objectAt found = none
    · exact .inr (Settled.of_no_object isObject)
    · apply scanBlock_finished level empty inside earlier
      by_cases isEarlier : found < addr
      · exact .inl isEarlier
      · exact .inr (suffix.object_of_lt (Nat.le_of_not_lt isEarlier) below isObject)

theorem scanBlocks_scanPtr (suffix : Suffix heap addr blocks) :
    (marking.scanBlocks cfg heap soft addr blocks).scanPtr = heap.limit := by
  induction blocks generalizing marking addr with
  | nil => simpa [scanBlocks] using suffix.limit
  | cons block rest ih => exact ih suffix.tail

theorem scanAgain_scan (empty : marking.stack = []) :
    Scan cfg heap soft { marking with overflow := 0 } (marking.scanAgain cfg heap soft) :=
  scanBlocks_scan (.start heap) empty

theorem scanAgain_finished (level : Mark) (empty : marking.stack = []) (other : Nat) :
    Finished cfg heap soft level (marking.scanAgain cfg heap soft) other := by
  refine scanBlocks_finished level (.start heap) ?_ ?_ other
  · exact empty
  intro found below
  exact .inr (Settled.of_no_object (Heap.objectFrom_of_lt (by omega)))

/-! ## `scanHeapAndMark` -/

variable (cfg heap soft) in
structure Complete (pre post : Marking) : Prop where
  raised : Raised cfg heap soft hardMark pre.marks post.marks
  conservativeRoots : post.conservativeRoots = pre.conservativeRoots
  stack : post.stack = []
  scanPtr : post.scanPtr = heap.limit
  finished : ∀ level addr, Finished cfg heap soft level post addr

theorem scanHeapAndMark_complete (empty : marking.stack = []) :
    Complete cfg heap soft marking (marking.scanHeapAndMark cfg heap soft) := by
  refine whileLoop_invariant (Complete cfg heap soft marking) ?_ _ ?_
  · intro state complete _
    have scan : Scan cfg heap soft { state with overflow := 0 } _ := scanAgain_scan complete.stack
    exact ⟨complete.raised.trans scan.raised,
      scan.conservativeRoots.trans complete.conservativeRoots, scan.stack,
      scanBlocks_scanPtr (.start heap), fun level => scanAgain_finished level complete.stack⟩
  · have scan : Scan cfg heap soft { marking with overflow := 0 } _ := scanAgain_scan empty
    exact ⟨scan.raised, scan.conservativeRoots, scan.stack,
      scanBlocks_scanPtr (.start heap), fun level => scanAgain_finished level empty⟩

theorem scanHeapAndMark_overflow (empty : marking.stack = []) :
    (marking.scanHeapAndMark cfg heap soft).overflow = 0 := by
  have exit := whileLoop_exit (fun marking => marking.overflow != 0)
    (scanAgain cfg heap soft) (fun state => state.stack = [])
    (fun state => potential heap.limit state.marks + if state.overflow = 0 then 0 else 1)
    ?_ ?_ (3 * heap.limit + 1) (marking.scanAgain cfg heap soft)
    (scanAgain_scan empty).stack ?_
  · simpa [scanHeapAndMark] using exit
  · exact fun state stack _ => (scanAgain_scan stack).stack
  · intro state stack continues
    have scan : Scan cfg heap soft { state with overflow := 0 } _ := scanAgain_scan stack
    have lower := potential_le_of_le heap.limit scan.raised.le
    have overflowed : state.overflow ≠ 0 := by simpa using continues
    by_cases again : (state.scanAgain cfg heap soft).overflow = 0
    · rw [if_pos again, if_neg overflowed]
      exact lt_succ_of_le lower
    · have lost := scan.lost (pos_of_ne_zero again)
      rw [if_neg again, if_neg overflowed]
      exact Nat.add_lt_add_right lost 1
  · have bounded := potential_le heap.limit (marking.scanAgain cfg heap soft).marks
    split <;> omega

theorem scanHeapAndMark_settled (empty : marking.stack = []) (level : Mark) (addr : Nat) :
    Settled cfg heap soft level (marking.scanHeapAndMark cfg heap soft).marks addr :=
  ((scanHeapAndMark_complete empty).finished level addr).resolve_left
    (not_not.mpr (scanHeapAndMark_overflow empty))

end Marking

end

end JamVM.Alloc
