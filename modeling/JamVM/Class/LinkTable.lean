import JamVM.Class.Link
import JamVM.Foundation.Fill

/-! # The tables of linked classes

The facts about `linkClass` that hold for every hierarchy: which interfaces a class
lists, which entries its method table has, and that an index keeps its name and
descriptor in all subclasses.
-/

namespace JamVM.Class.Hierarchy

open Function
open List hiding count

variable {hier : Hierarchy}

/-! ## The order of linking -/

@[simp] theorem map_interface_placeInterfaces (blocks : Nat → ClassBlock)
    (table : List MethodBlock) (interfaces : List Nat) (cache : MirandaCache) :
    (hier.placeInterfaces blocks table interfaces cache).2.map ITableEntry.interface =
      interfaces := by
  induction interfaces generalizing cache with
  | nil => rfl
  | cons interface rest ih => simp [placeInterfaces, ih]

theorem linkClass_interfaces (blocks : Nat → ClassBlock) (self : Nat) :
    (hier.linkClass blocks self).imethodTable.map ITableEntry.interface =
      (hier.inheritedBlock blocks self).imethodTable.map ITableEntry.interface ++
        hier.newInterfaces blocks self := by
  unfold linkClass
  simp only
  split
  · simp [comp_def]
  · simp

variable {self : Nat}

theorem linkedSuper_lt (linked : hier.linkedSuper self = some super) : super < self := by
  unfold linkedSuper at linked
  split at linked
  · cases linked
  · exact hier.super_lt self super linked

theorem linkUpTo_interface_lt (count self interface : Nat)
    (mem : interface ∈ (linkUpTo hier count self).imethodTable.map ITableEntry.interface) :
    interface < self := by
  induction count generalizing self interface with
  | zero => simp [linkUpTo, default] at mem
  | succ count ih =>
    rw [linkUpTo] at mem
    obtain rfl | same := eq_or_ne self count
    · rw [update_self, linkClass_interfaces, mem_append] at mem
      rcases mem with inherited | added
      · unfold inheritedBlock at inherited
        cases linked : hier.linkedSuper self with
        | none => simp [linked, default] at inherited
        | some super =>
          rw [linked] at inherited
          exact (ih super interface inherited).trans (linkedSuper_lt linked)
      · obtain ⟨direct, listed, mem⟩ := mem_flatMap.mp added
        have smaller := hier.interface_lt self direct listed
        cases mem with
        | head => exact smaller
        | tail _ mem => exact (ih direct interface mem).trans smaller
    · rw [update_of_ne same] at mem
      exact ih self interface mem

theorem placeInterfaces_congr (agree : ∀ interface ∈ interfaces,
      blocks interface = blocks' interface) (cache : MirandaCache) :
    hier.placeInterfaces blocks table interfaces cache =
      hier.placeInterfaces blocks' table interfaces cache := by
  induction interfaces generalizing cache with
  | nil => rfl
  | cons interface rest ih =>
    have here := agree interface (mem_cons_self ..)
    have there := ih fun other mem => agree other (mem_cons_of_mem _ mem)
    simp only [placeInterfaces, here, there]

theorem linkClass_congr (agree : ∀ other < self, blocks other = blocks' other)
    (bounded : ∀ interface ∈ hier.newInterfaces blocks self, interface < self) :
    hier.linkClass blocks self = hier.linkClass blocks' self := by
  have inherited : hier.inheritedBlock blocks self =
      hier.inheritedBlock blocks' self := by
    unfold inheritedBlock
    cases linked : hier.linkedSuper self with
    | none => rfl
    | some super => exact agree super (linkedSuper_lt linked)
  have interfaces : hier.newInterfaces blocks self =
      hier.newInterfaces blocks' self := by
    apply flatMap_congr
    intro interface mem
    rw [agree interface (hier.interface_lt self interface mem)]
  unfold linkClass
  rw [← inherited, ← interfaces]
  simp only [placeInterfaces_congr fun interface mem => agree interface (bounded interface mem)]

theorem linkUpTo_of_lt (earlier : self < count) : linkUpTo hier count self = hier.link self := by
  induction count with
  | zero => exact absurd earlier (Nat.not_lt_zero _)
  | succ count ih =>
    obtain rfl | same := eq_or_ne self count
    · rfl
    · rw [linkUpTo, update_of_ne same]
      exact ih (by omega)

theorem link_eq (hier : Hierarchy) (self : Nat) :
    hier.link self = hier.linkClass hier.link self := by
  rw [link, linkUpTo, update_self]
  apply linkClass_congr
  · exact fun other earlier => linkUpTo_of_lt earlier
  · intro interface mem
    obtain ⟨direct, listed, mem⟩ := mem_flatMap.mp mem
    have smaller := hier.interface_lt self direct listed
    cases mem with
    | head => exact smaller
    | tail _ mem => exact (linkUpTo_interface_lt self direct interface mem).trans smaller

/-! ## Listed interfaces -/

def listed (hier : Hierarchy) (self : Nat) : List Nat :=
  (hier.link self).imethodTable.map ITableEntry.interface

theorem listed_eq (hier : Hierarchy) (self : Nat) :
    hier.listed self = (match hier.linkedSuper self with
        | some super => hier.listed super
        | none => []) ++
      (hier.file self).interfaces.flatMap fun interface => interface :: hier.listed interface := by
  unfold listed
  rw [link_eq, linkClass_interfaces]
  congr 1
  unfold inheritedBlock
  cases hier.linkedSuper self <;> rfl

theorem mem_listed_iff : interface ∈ hier.listed self ↔ SuperInterface hier interface self := by
  induction self using Nat.strong_induction_on with
  | _ self ih =>
    rw [listed_eq, mem_append, mem_flatMap]
    constructor
    · rintro (inherited | ⟨direct, mem, rest⟩)
      · cases linked : hier.linkedSuper self with
        | none => simp [linked] at inherited
        | some super =>
          rw [linked] at inherited
          have above := (ih super (linkedSuper_lt linked)).mp inherited
          unfold linkedSuper at linked
          split at linked
          · cases linked
          · exact .inherited linked above
      · have smaller := hier.interface_lt self direct mem
        rcases mem_cons.mp rest with rfl | deeper
        · exact .direct mem
        · exact .extended mem ((ih direct smaller).mp deeper)
    · intro superinterface
      cases superinterface with
      | direct mem => exact .inr ⟨interface, mem, mem_cons_self ..⟩
      | @extended _ direct mem deeper =>
        have smaller := hier.interface_lt self direct mem
        exact .inr ⟨direct, mem, mem_cons_of_mem _ ((ih direct smaller).mpr deeper)⟩
      | @inherited _ super mem above =>
        left
        have linked : hier.linkedSuper self = some super := by
          unfold linkedSuper
          split
          · rename_i isInterface
            -- The superclass of an interface is `Object`, which has no interfaces.
            obtain ⟨root, bare⟩ := hier.interface_super self isInterface super mem
            cases above with
            | direct found | extended found => simp [bare] at found
            | inherited found => simp [root] at found
          · exact mem
        rw [linked]
        exact (ih super (linkedSuper_lt linked)).mpr above

/-! ## Declared methods -/

section
variable {superTable : List MethodBlock} {self pos newMethods : Nat}
  {methods : List MethodInfo}

def Indexed (table : List MethodBlock) : Prop :=
  ∀ (pos : Nat) (entry : MethodBlock), table[pos]? = some entry → entry.methodTableIndex = pos

/-- A virtual method takes the index of the entry it overrides, or one of the new
indices from `lower` up to `upper`. -/
def Assigned (hier : Hierarchy) (superTable : List MethodBlock) (self lower upper : Nat)
    (method : MethodBlock) : Prop :=
  match hier.overridden superTable self method.info with
  | some inherited => method.methodTableIndex = inherited.methodTableIndex
  | none => superTable.length + lower ≤ method.methodTableIndex ∧
      method.methodTableIndex < superTable.length + upper

variable {lower upper : Nat} {method : MethodBlock}

theorem Assigned.mono (assigned : Assigned hier superTable self lower upper method)
    (below : lower' ≤ lower) (above : upper ≤ upper') :
    Assigned hier superTable self lower' upper' method := by
  unfold Assigned at *
  split at assigned
  · exact assigned
  · omega

theorem assignIndex_assigned {method : MethodInfo} (isVirtual : method.isVirtual = true) :
    Assigned hier superTable self newMethods (hier.assignIndex superTable self newMethods method).2
      (declaredBlock self pos method (hier.assignIndex superTable self newMethods method).1) := by
  have info (index : Nat) : (declaredBlock self pos method index).info = method := rfl
  unfold Assigned assignIndex
  rw [if_pos isVirtual, info]
  cases hier.overridden superTable self method with
  | some => rfl
  | none => exact ⟨Nat.le_refl _, Nat.lt_succ_self _⟩

theorem assignIndex_le (method : MethodInfo) :
    newMethods ≤ (hier.assignIndex superTable self newMethods method).2 := by
  unfold assignIndex
  split
  · split <;> simp
  · exact Nat.le_refl _

theorem assignIndex_cases (superTable : List MethodBlock) (self newMethods : Nat)
    (method : MethodInfo) :
    (hier.assignIndex superTable self newMethods method).2 = newMethods ∨
      method.isVirtual = true ∧ hier.assignIndex superTable self newMethods method =
        (superTable.length + newMethods, newMethods + 1) := by
  unfold assignIndex
  split
  · rename_i isVirtual
    cases hier.overridden superTable self method with
    | some => exact .inl rfl
    | none => exact .inr ⟨isVirtual, rfl⟩
  · exact .inl rfl

theorem prepareMethods_cons (method : MethodInfo) (rest : List MethodInfo) :
    hier.prepareMethods superTable self pos newMethods (method :: rest) =
      (declaredBlock self pos method (hier.assignIndex superTable self newMethods method).1 ::
          (hier.prepareMethods superTable self (pos + 1)
            (hier.assignIndex superTable self newMethods method).2 rest).1,
        (hier.prepareMethods superTable self (pos + 1)
          (hier.assignIndex superTable self newMethods method).2 rest).2) := rfl

theorem prepareMethods_le :
    newMethods ≤ (hier.prepareMethods superTable self pos newMethods methods).2 := by
  induction methods generalizing pos newMethods with
  | nil => exact Nat.le_refl _
  | cons method rest ih => exact (assignIndex_le method).trans ih

theorem map_info_prepareMethods : (hier.prepareMethods superTable self pos newMethods methods).1.map
      MethodBlock.info = methods := by
  induction methods generalizing pos newMethods with
  | nil => rfl
  | cons method rest ih =>
    simp only [prepareMethods, map_cons, ih]
    rfl

theorem prepareMethods_declared
    (found : (hier.prepareMethods superTable self pos newMethods methods).1[offset]? =
      some method) :
    method.owner = self ∧ method.position = pos + offset ∧ method.origin = .declared := by
  induction methods generalizing pos newMethods offset with
  | nil => simp [prepareMethods] at found
  | cons first rest ih =>
    cases offset with
    | zero =>
      cases found
      exact ⟨rfl, rfl, rfl⟩
    | succ =>
      obtain ⟨owner, place, origin⟩ := ih found
      exact ⟨owner, by omega, origin⟩

theorem prepareMethods_assigned (mem : method ∈
      (hier.prepareMethods superTable self pos newMethods methods).1)
    (isVirtual : method.isVirtual = true) :
    Assigned hier superTable self newMethods
      (hier.prepareMethods superTable self pos newMethods methods).2 method := by
  induction methods generalizing pos newMethods with
  | nil => cases mem
  | cons first rest ih =>
    cases mem with
    | head => exact (assignIndex_assigned isVirtual).mono (Nat.le_refl _) prepareMethods_le
    | tail _ mem => exact (ih mem).mono (assignIndex_le first) (Nat.le_refl _)

theorem prepareMethods_covers (lower : superTable.length + newMethods ≤ index)
    (upper : index < superTable.length +
      (hier.prepareMethods superTable self pos newMethods methods).2) :
    ∃ method ∈ (hier.prepareMethods superTable self pos newMethods methods).1,
      method.isVirtual = true ∧ method.methodTableIndex = index := by
  induction methods generalizing pos newMethods with
  | nil =>
    simp only [prepareMethods] at upper
    omega
  | cons first rest ih =>
    rw [prepareMethods_cons] at upper ⊢
    rcases assignIndex_cases superTable self newMethods first with same | ⟨isVirtual, new⟩
    · obtain ⟨method, mem, facts⟩ := ih (by rw [same]; exact lower) upper
      exact ⟨method, mem_cons_of_mem _ mem, facts⟩
    · rcases Nat.eq_or_lt_of_le lower with here | later
      · exact ⟨_, mem_cons_self .., isVirtual, by rw [new]; exact here⟩
      · obtain ⟨method, mem, facts⟩ := ih (by rw [new]; exact later) upper
        exact ⟨method, mem_cons_of_mem _ mem, facts⟩

theorem overridden_spec {method : MethodInfo}
    (found : hier.overridden superTable self method = some inherited) :
    inherited ∈ superTable ∧ method.signature = inherited.signature ∧
      hier.checkMethodAccess inherited self = true := by
  have holds := find?_some found
  simp only [Bool.and_eq_true, decide_eq_true_eq] at holds
  exact ⟨mem_of_find?_eq_some found, holds⟩

theorem Indexed.mem_iff (indexed : Indexed table) :
    entry ∈ table ↔ table[entry.methodTableIndex]? = some entry := by
  constructor
  · intro mem
    obtain ⟨pos, found⟩ := mem_iff_getElem?.mp mem
    rw [indexed pos entry found]
    exact found
  · exact mem_of_getElem?

theorem Assigned.ne (assigned : Assigned hier superTable self lower middle first)
    (assigned' : Assigned hier superTable self middle upper second)
    (indexed : Indexed superTable) (ne : first.signature ≠ second.signature) :
    first.methodTableIndex ≠ second.methodTableIndex := by
  have inside {method : MethodInfo} {inherited : MethodBlock}
      (found : hier.overridden superTable self method = some inherited) :
      superTable[inherited.methodTableIndex]? = some inherited :=
    indexed.mem_iff.mp (overridden_spec found).1
  have bounded {method : MethodInfo} {inherited : MethodBlock}
      (found : hier.overridden superTable self method = some inherited) :
      inherited.methodTableIndex < superTable.length :=
    (List.getElem?_eq_some_iff.mp (inside found)).1
  unfold Assigned at assigned assigned'
  intro same
  cases found : hier.overridden superTable self first.info with
  | some inherited =>
    cases found' : hier.overridden superTable self second.info with
    | some inherited' =>
      simp only [found, found'] at assigned assigned'
      have equal : inherited = inherited' := by
        have pos := inside found
        rw [← assigned, same, assigned', inside found'] at pos
        exact (Option.some.inj pos).symm
      have sig := (overridden_spec found).2.1
      rw [equal, ← (overridden_spec found').2.1] at sig
      exact ne sig
    | none =>
      simp only [found, found'] at assigned assigned'
      have := bounded found
      omega
  | none =>
    cases found' : hier.overridden superTable self second.info with
    | some =>
      simp only [found, found'] at assigned assigned'
      have := bounded found'
      omega
    | none =>
      simp only [found, found'] at assigned assigned'
      omega

theorem prepareMethods_distinct (indexed : Indexed superTable)
    (distinct : methods.Pairwise fun first second =>
      ¬ (first.name = second.name ∧ first.type = second.type)) :
    (hier.prepareMethods superTable self pos newMethods methods).1.Pairwise
      fun first second => first.isVirtual = true → second.isVirtual = true →
        first.methodTableIndex ≠ second.methodTableIndex := by
  induction methods generalizing pos newMethods with
  | nil => exact .nil
  | cons first rest ih =>
    obtain ⟨apart, distinct⟩ := pairwise_cons.mp distinct
    refine pairwise_cons.mpr ⟨?_, ih distinct⟩
    intro second mem isVirtual isVirtual' same
    have assigned : Assigned hier superTable self newMethods
        (hier.assignIndex superTable self newMethods first).2
        (declaredBlock self pos first (hier.assignIndex superTable self newMethods first).1) :=
      assignIndex_assigned isVirtual
    have assigned' := prepareMethods_assigned mem isVirtual'
    have listed : second.info ∈ rest := by
      have listed := mem_map_of_mem (f := MethodBlock.info) mem
      rwa [map_info_prepareMethods] at listed
    exact assigned.ne assigned' indexed (fun same => apart _ listed (Prod.mk.inj same)) same

theorem fillinMTable_eq (table methods : List MethodBlock) : fillinMTable table methods =
      fill MethodBlock.methodTableIndex table (methods.filter MethodBlock.isVirtual) := by
  unfold fillinMTable fill
  induction methods generalizing table with
  | nil => rfl
  | cons method rest ih =>
    rw [foldl_cons, ih, filter_cons]
    split <;> rfl

theorem virtual_distinct (indexed : Indexed superTable)
    (distinct : methods.Pairwise fun first second =>
      ¬ (first.name = second.name ∧ first.type = second.type)) :
    ((hier.prepareMethods superTable self pos newMethods methods).1.filter
      MethodBlock.isVirtual).Pairwise
        fun first second => first.methodTableIndex ≠ second.methodTableIndex :=
  pairwise_filter.mpr (prepareMethods_distinct indexed distinct)

@[simp] theorem length_declaredTable (prepared : List MethodBlock × Nat) :
    (declaredTable superTable prepared).length = superTable.length + prepared.2 := by
  simp [declaredTable, fillinMTable_eq]

variable (indexed : Indexed superTable)
  (distinct : methods.Pairwise fun first second =>
    ¬ (first.name = second.name ∧ first.type = second.type))
include indexed in
theorem Assigned.lt (assigned : Assigned hier superTable self lower upper method) :
    method.methodTableIndex < superTable.length + upper := by
  unfold Assigned at assigned
  cases found : hier.overridden superTable self method.info with
  | some =>
    rw [found] at assigned
    have inside := indexed.mem_iff.mp (overridden_spec found).1
    have bound := (List.getElem?_eq_some_iff.mp inside).1
    omega
  | none =>
    rw [found] at assigned
    exact assigned.2

include indexed distinct in
theorem declaredTable_declared (mem : method ∈ (hier.prepareMethods superTable self 0 0 methods).1)
    (isVirtual : method.isVirtual = true) :
    (declaredTable superTable (hier.prepareMethods superTable self 0 0 methods))[
      method.methodTableIndex]? = some method := by
  unfold declaredTable
  rw [fillinMTable_eq]
  apply Fill.getElem?_written (virtual_distinct indexed distinct)
  · exact mem_filter.mpr ⟨mem, isVirtual⟩
  · simpa using (prepareMethods_assigned mem isVirtual).lt indexed

include indexed distinct in
theorem declaredTable_cases (found : (declaredTable superTable
      (hier.prepareMethods superTable self 0 0 methods))[index]? = some entry) :
    (entry ∈ (hier.prepareMethods superTable self 0 0 methods).1 ∧
      entry.isVirtual = true ∧ entry.methodTableIndex = index) ∨
    superTable[index]? = some entry ∧
      ∀ method ∈ (hier.prepareMethods superTable self 0 0 methods).1,
        method.isVirtual = true → method.methodTableIndex ≠ index := by
  unfold declaredTable at found
  rw [fillinMTable_eq] at found
  rcases Fill.getElem?_cases (virtual_distinct indexed distinct) found with
    ⟨mem, pos⟩ | ⟨kept, unwritten⟩
  · obtain ⟨mem, isVirtual⟩ := mem_filter.mp mem
    exact .inl ⟨mem, isVirtual, pos⟩
  · right
    have absent : ∀ method ∈ (hier.prepareMethods superTable self 0 0 methods).1,
        method.isVirtual = true → method.methodTableIndex ≠ index :=
      fun method mem isVirtual => unwritten method (mem_filter.mpr ⟨mem, isVirtual⟩)
    refine ⟨?_, absent⟩
    by_cases inherited : index < superTable.length
    · rwa [getElem?_append_left inherited] at kept
    · -- A new slot is not left empty.
      have bound := (List.getElem?_eq_some_iff.mp kept).1
      rw [List.length_append, List.length_replicate] at bound
      have new : superTable.length + 0 ≤ index := by omega
      obtain ⟨method, mem, isVirtual, pos⟩ := prepareMethods_covers new bound
      exact absurd pos (absent method mem isVirtual)

end

end JamVM.Class.Hierarchy
