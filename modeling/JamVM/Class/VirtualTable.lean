import JamVM.Class.LinkMiranda

/-! # Method tables of linked classes

What the method table of a class has in each slot, in terms of the method table of
its superclass.
-/

namespace JamVM.Class.Hierarchy

open List

def superTable (hier : Hierarchy) (self : Nat) : List MethodBlock :=
  (hier.inheritedBlock hier.link self).methodTable

def declaredMethods (hier : Hierarchy) (self : Nat) : List MethodBlock × Nat :=
  hier.prepareMethods (hier.superTable self) self 0 0 (hier.file self).methods

def realTable (hier : Hierarchy) (self : Nat) : List MethodBlock :=
  declaredTable (hier.superTable self) (hier.declaredMethods self)

def placedInterfaces (hier : Hierarchy) (self : Nat) : MirandaCache × List ITableEntry :=
  hier.placeInterfaces hier.link (hier.realTable self) (hier.newInterfaces hier.link self) ⟨[], 0⟩

variable {hier : Hierarchy} {self : Nat}

theorem link_class (isClass : (hier.file self).isInterface = false) :
    (hier.link self).methods = (hier.declaredMethods self).1 ++
        mirandaBlocks self (hier.declaredMethods self).1.length
          (hier.placedInterfaces self).1.mirandas ∧
      (hier.link self).methodTable = installed (hier.realTable self) self
        (hier.declaredMethods self).1.length (hier.placedInterfaces self).1 ∧
      (hier.link self).imethodTable = (hier.inheritedBlock hier.link self).imethodTable ++
          (hier.placedInterfaces self).2 := by
  rw [link_eq, linkClass]
  simp only [isClass, Bool.false_eq_true, if_false]
  exact ⟨rfl, rfl, rfl⟩

theorem link_interface (isInterface : (hier.file self).isInterface = true) :
    (hier.link self).methods = (hier.declaredMethods self).1 ∧ hier.superTable self = [] := by
  constructor
  · rw [link_eq, linkClass]
    simp only [isInterface, if_true]
    rfl
  · simp [superTable, inheritedBlock, linkedSuper, isInterface, default]

theorem superTable_eq (linked : hier.linkedSuper self = some super) :
    hier.superTable self = (hier.link super).methodTable := by
  simp [superTable, inheritedBlock, linked]

theorem superTable_none (linked : hier.linkedSuper self = none) : hier.superTable self = [] := by
  simp [superTable, inheritedBlock, linked, default]

theorem linkedSuper_class (linked : hier.linkedSuper self = some super) :
    (hier.file super).isInterface = false ∧ super ∈ (hier.file self).super := by
  unfold linkedSuper at linked
  split at linked
  · cases linked
  · exact ⟨hier.super_class self super linked, linked⟩

theorem position_unique (hier : Hierarchy) {second : Nat}
    (found : (hier.file owner).methods[first]? = some info)
    (found' : (hier.file owner).methods[second]? = some info')
    (same : info.signature = info'.signature) : first = second := by
  have nodup : ((hier.file owner).methods.map MethodInfo.signature).Nodup :=
    pairwise_map.mpr ((hier.distinct owner).imp fun differ same => differ (Prod.mk.inj same))
  have bound := (List.getElem?_eq_some_iff.mp found).1
  exact (getElem?_inj (by simpa) nodup).mp (by simp [found, found', same])

/-! ## Sources of Mirandas -/

def Source (hier : Hierarchy) (self : Nat) (method : MethodBlock) : Prop :=
  SuperInterface hier method.owner self ∧
    method ∈ (hier.link method.owner).methods ∧ method.isVirtual = true

theorem declaredMethods_owner (mem : method ∈ (hier.declaredMethods self).1) :
    method.owner = self ∧ method.origin = .declared ∧
      (hier.declaredMethods self).1[method.position]? = some method := by
  obtain ⟨pos, found⟩ := mem_iff_getElem?.mp mem
  obtain ⟨owner, place, origin⟩ := prepareMethods_declared found
  refine ⟨owner, origin, ?_⟩
  rw [place, Nat.zero_add]
  exact found

theorem map_info_declaredMethods (hier : Hierarchy) (self : Nat) :
    (hier.declaredMethods self).1.map MethodBlock.info = (hier.file self).methods :=
  map_info_prepareMethods

theorem declaredMethods_found (mem : method ∈ (hier.declaredMethods self).1) :
    (hier.file self).methods[method.position]? = some method.info := by
  rw [← map_info_declaredMethods, getElem?_map, (declaredMethods_owner mem).2.2]
  rfl

theorem source_of_link (above : SuperInterface hier interface self)
    (mem : method ∈ (hier.link interface).methods) (isVirtual : method.isVirtual = true) :
    Source hier self method ∧ method.owner = interface := by
  have prepared := mem
  rw [(link_interface above.isInterface).1] at prepared
  obtain rfl := (declaredMethods_owner prepared).1
  exact ⟨⟨above, mem, isVirtual⟩, rfl⟩

theorem placedInterfaces_cached (hier : Hierarchy) (self : Nat) :
    Cached (hier.realTable self) (Source hier self) (hier.placedInterfaces self).1 ∧
      ∀ entry ∈ (hier.placedInterfaces self).2,
        Offsets (hier.realTable self) (hier.placedInterfaces self).1
          (hier.link entry.interface).methods entry.offsets := by
  have known : ∀ interface ∈ hier.newInterfaces hier.link self,
      ∀ method ∈ (hier.link interface).methods, method.isVirtual = true →
        Source hier self method := by
    intro interface added method mem isVirtual
    have above : SuperInterface hier interface self := by
      rw [← mem_listed_iff, listed, link_eq, linkClass_interfaces]
      exact mem_append_right _ added
    exact (source_of_link above mem isVirtual).1
  obtain ⟨cached, _, offsets⟩ := placeInterfaces_cached hier
    (cached_empty (hier.realTable self) (Source hier self)) known
  exact ⟨cached, offsets⟩

/-! ## Slots -/

section
variable (isClass : (hier.file self).isInterface = false)
  (indexed : Indexed (hier.superTable self))

inductive Filled (hier : Hierarchy) (self index : Nat) (entry : MethodBlock) : Prop
  | declared : entry ∈ (hier.declaredMethods self).1 → entry.isVirtual = true →
      entry.methodTableIndex = index → Filled hier self index entry
  | inherited : (hier.superTable self)[index]? = some entry →
      (∀ method ∈ (hier.declaredMethods self).1, method.isVirtual = true →
        method.methodTableIndex ≠ index) → Filled hier self index entry
  | miranda {miranda : Miranda} {place : Nat} :
      miranda ∈ (hier.placedInterfaces self).1.mirandas → miranda.index = index →
      entry = mirandaBlock self place miranda → Filled hier self index entry

include isClass indexed in
theorem methodTable_filled (found : (hier.link self).methodTable[index]? = some entry) :
    Filled hier self index entry := by
  rw [(link_class isClass).2.1] at found
  rcases installed_cases (placedInterfaces_cached hier self).1 found with
    ⟨miranda, mem, same, place, block⟩ | ⟨kept, -⟩
  · exact .miranda mem same block
  · rcases declaredTable_cases indexed (hier.distinct self) kept with
      ⟨mem, isVirtual, same⟩ | ⟨inherited, absent⟩
    · exact .declared mem isVirtual same
    · exact .inherited inherited absent

include isClass in
theorem methodTable_kept {index : Nat} {entry : MethodBlock}
    (found : (hier.realTable self)[index]? = some entry)
    (other : ∀ target, entry.origin ≠ .bridge target) :
    (hier.link self).methodTable[index]? = some entry := by
  rw [(link_class isClass).2.1]
  obtain ⟨entry', present, rfl | ⟨_, _, target, _, bridge, -⟩⟩ :=
    installed_entry (placedInterfaces_cached hier self).1 found self _
  · exact present
  · exact absurd bridge (other target)

include isClass indexed in
theorem methodTable_declared {method : MethodBlock} (mem : method ∈ (hier.declaredMethods self).1)
    (isVirtual : method.isVirtual = true) :
    (hier.link self).methodTable[method.methodTableIndex]? = some method := by
  apply methodTable_kept isClass
  · exact declaredTable_declared indexed (hier.distinct self) mem isVirtual
  · intro target
    rw [(declaredMethods_owner mem).2.1]
    simp

include indexed in
theorem realTable_inherited (found : (hier.superTable self)[index]? = some entry)
    (absent : ∀ method ∈ (hier.declaredMethods self).1, method.isVirtual = true →
      method.methodTableIndex ≠ index) : (hier.realTable self)[index]? = some entry := by
  have bound := (List.getElem?_eq_some_iff.mp found).1
  have inside : index < (hier.realTable self).length := by
    rw [realTable, length_declaredTable]
    omega
  have present := getElem?_eq_getElem inside
  rcases declaredTable_cases indexed (hier.distinct self) present with
    ⟨mem, isVirtual, same⟩ | ⟨kept, -⟩
  · exact absurd same (absent _ mem isVirtual)
  · rw [present, ← kept, found]

include isClass indexed in
theorem methodTable_indexed : Indexed (hier.link self).methodTable := by
  intro index entry found
  cases methodTable_filled isClass indexed found with
  | declared _ _ same => exact same
  | inherited found => exact indexed index entry found
  | miranda _ same block =>
    subst block
    exact same

end

theorem superTable_induction {holds : List MethodBlock → Prop} (empty : holds [])
    (step : ∀ {self}, (hier.file self).isInterface = false → holds (hier.superTable self) →
      holds (hier.link self).methodTable) (self : Nat) : holds (hier.superTable self) := by
  induction self using Nat.strong_induction_on with
  | _ self ih =>
    cases linked : hier.linkedSuper self with
    | none => rwa [superTable_none linked]
    | some super =>
      rw [superTable_eq linked]
      exact step (linkedSuper_class linked).1 (ih super (linkedSuper_lt linked))

theorem indexed_superTable (hier : Hierarchy) (self : Nat) : Indexed (hier.superTable self) :=
  superTable_induction (by simp [Indexed]) methodTable_indexed self

theorem indexed_link (hier : Hierarchy) (self : Nat)
    (isClass : (hier.file self).isInterface = false) :
    Indexed (hier.link self).methodTable :=
  methodTable_indexed isClass (indexed_superTable hier self)

/-! ## Mirandas are alone -/

def PublicInterfaces (hier : Hierarchy) (sig : Utf8 × Utf8) (self : Nat) : Prop :=
  ∀ interface, SuperInterface hier interface self → ∀ method ∈ (hier.file interface).methods,
    method.isVirtual = true → method.signature = sig → method.flags.isPublic = true

theorem PublicInterfaces.above {super : Nat} (visible : PublicInterfaces hier sig self)
    (mem : super ∈ (hier.file self).super) : PublicInterfaces hier sig super :=
  fun interface implemented => visible interface (.inherited mem implemented)

structure SoleMirandas (sig : Utf8 × Utf8) (table : List MethodBlock) : Prop where
  isPublic : ∀ entry ∈ table, entry.origin ≠ .declared → entry.signature = sig →
    entry.flags.isPublic = true
  sole : ∀ {index index' : Nat} {entry entry' : MethodBlock}, table[index]? = some entry →
    table[index']? = some entry' → entry.origin ≠ .declared →
    entry.signature = sig → entry'.signature = sig → index' = index

theorem Source.isPublic (visible : PublicInterfaces hier sig self) {method : MethodBlock}
    (source : Source hier self method) (same : method.signature = sig) :
    method.flags.isPublic = true := by
  obtain ⟨above, mem, isVirtual⟩ := source
  rw [(link_interface above.isInterface).1] at mem
  exact visible method.owner above method.info
    (mem_of_getElem? (declaredMethods_found mem)) isVirtual same

theorem overridden_isSome {superTable : List MethodBlock} (method : MethodInfo)
    (mem : entry ∈ superTable) (same : method.signature = entry.signature)
    (accessible : hier.checkMethodAccess entry self = true) :
    ∃ chosen, hier.overridden superTable self method = some chosen := by
  apply Option.isSome_iff_exists.mp
  apply find?_isSome.mpr
  exact ⟨entry, mem, by simp [same, accessible]⟩

theorem declaredMethods_overrides (declared : method ∈ (hier.declaredMethods self).1)
    (isVirtual : method.isVirtual = true) (mem : entry ∈ hier.superTable self)
    (same : method.signature = entry.signature)
    (accessible : hier.checkMethodAccess entry self = true) :
    ∃ chosen, (hier.superTable self)[method.methodTableIndex]? = some chosen ∧
      method.signature = chosen.signature ∧
      hier.checkMethodAccess chosen self = true := by
  have assigned := prepareMethods_assigned declared isVirtual
  obtain ⟨chosen, found⟩ := overridden_isSome method.info mem same accessible
  obtain ⟨listed, agree, access⟩ := overridden_spec found
  rw [Assigned, found] at assigned
  refine ⟨chosen, ?_, agree, access⟩
  rw [assigned]
  exact (indexed_superTable hier self).mem_iff.mp listed

theorem realTable_sole (sole : SoleMirandas sig (hier.superTable self)) :
    SoleMirandas sig (hier.realTable self) := by
  have inherited {index : Nat} {entry : MethodBlock}
      (found : (hier.realTable self)[index]? = some entry)
      (miranda : entry.origin ≠ .declared) :
      (hier.superTable self)[index]? = some entry := by
    rcases declaredTable_cases (indexed_superTable hier self)
      (hier.distinct self) found with ⟨mem, -⟩ | ⟨kept, -⟩
    · exact absurd (declaredMethods_owner mem).2.1 miranda
    · exact kept
  constructor
  · intro entry mem miranda
    obtain ⟨index, found⟩ := mem_iff_getElem?.mp mem
    exact sole.isPublic entry (mem_of_getElem? (inherited found miranda)) miranda
  · intro index index' entry entry' found found' miranda same same'
    have kept := inherited found miranda
    rcases declaredTable_cases (indexed_superTable hier self)
      (hier.distinct self) found' with ⟨mem, isVirtual, place⟩ | ⟨kept', -⟩
    · -- The Miranda is public, so a method of the class would replace it.
      have listed := mem_of_getElem? kept
      have accessible : hier.checkMethodAccess entry self = true := by
        simp [checkMethodAccess, checkMethodOrFieldAccess, sole.isPublic entry listed miranda same]
      obtain ⟨chosen, taken, agree, -⟩ :=
        declaredMethods_overrides mem isVirtual listed (same'.trans same.symm) accessible
      rw [place] at taken
      exact sole.sole kept taken miranda same (agree.symm.trans same')
    · exact sole.sole kept kept' miranda same same'

theorem methodTable_sole (isClass : (hier.file self).isInterface = false)
    (visible : PublicInterfaces hier sig self) (sole : SoleMirandas sig (hier.superTable self)) :
    SoleMirandas sig (hier.link self).methodTable := by
  have cached := (placedInterfaces_cached hier self).1
  have real := realTable_sole sole
  rw [(link_class isClass).2.1]
  constructor
  · intro entry mem miranda same
    obtain ⟨index, found⟩ := mem_iff_getElem?.mp mem
    rcases installed_cases cached found with ⟨source, listed, -, place, rfl⟩ | ⟨kept, -⟩
    · exact (cached.sources source listed).isPublic visible same
    · exact real.isPublic entry (mem_of_getElem? kept) miranda same
  · intro index index' entry entry' found found' miranda same same'
    exact installed_sole cached real.sole found found' miranda same same'

theorem soleMirandas_superTable (visible : PublicInterfaces hier sig self) :
    SoleMirandas sig (hier.superTable self) := by
  induction self using Nat.strong_induction_on with
  | _ self ih =>
    cases linked : hier.linkedSuper self with
    | none =>
      rw [superTable_none linked]
      constructor <;> simp
    | some super =>
      obtain ⟨isClass, mem⟩ := linkedSuper_class linked
      rw [superTable_eq linked]
      exact methodTable_sole isClass (visible.above mem)
        (ih super (linkedSuper_lt linked) (visible.above mem))

theorem soleMirandas_link (visible : PublicInterfaces hier sig self)
    (isClass : (hier.file self).isInterface = false) :
    SoleMirandas sig (hier.link self).methodTable :=
  methodTable_sole isClass visible (soleMirandas_superTable visible)

end JamVM.Class.Hierarchy
