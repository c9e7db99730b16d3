import JamVM.Class.VirtualTable
import Mathlib.Logic.Relation

/-! # Overriding

The methods that virtual dispatch selects, compared with the overriding relation of
the Java virtual machine. `linkClass` lets a declared method take one slot, so the
two agree exactly where the methods that a declaration overrides form a chain.
-/

namespace JamVM.Class.Hierarchy

open List

/-! ## The overriding relation -/

structure Declares (hier : Hierarchy) (method : MethodRef) (info : MethodInfo) : Prop where
  isClass : (hier.file method.owner).isInterface = false
  found : (hier.file method.owner).methods[method.position]? = some info
  isVirtual : info.isVirtual = true

def Overridable (hier : Hierarchy) (info : MethodInfo) (declaring overriding : Nat) : Prop :=
  info.flags.isPublic = true ∨ info.flags.isProtected = true ∨
    hier.SameRuntimePackage declaring overriding

structure DirectlyOverrides (hier : Hierarchy) (method super : MethodRef) : Prop where
  subclass : SubClass hier super.owner method.owner
  strict : super.owner ≠ method.owner
  declared : ∃ info info', Declares hier method info ∧ Declares hier super info' ∧
    info.signature = info'.signature ∧
    hier.Overridable info' super.owner method.owner

def Overrides (hier : Hierarchy) : MethodRef → MethodRef → Prop :=
  Relation.ReflTransGen (DirectlyOverrides hier)

structure DeclaresIn (hier : Hierarchy) (sig : Utf8 × Utf8) (target : Nat)
    (method : MethodRef) : Prop where
  subclass : SubClass hier method.owner target
  declared : ∃ info, Declares hier method info ∧ info.signature = sig

variable {hier : Hierarchy} {sig : Utf8 × Utf8} {self : Nat} {method super : MethodRef}

theorem DeclaresIn.mono {super : Nat} (declares : DeclaresIn hier sig super method)
    (mem : super ∈ (hier.file self).super) :
    DeclaresIn hier sig self method :=
  ⟨.inherits mem declares.subclass, declares.declared⟩

theorem DeclaresIn.here (declares : DeclaresIn hier sig self method) :
    DeclaresIn hier sig method.owner method :=
  ⟨.refl, declares.declared⟩

theorem Declares.unique (declares : Declares hier method info)
    (declares' : Declares hier method info') : info = info' :=
  Option.some.inj (declares.found.symm.trans declares'.found)

theorem Overrides.subclass (overrides : Overrides hier method super) :
    SubClass hier super.owner method.owner := by
  induction overrides with
  | refl => exact .refl
  | tail _ direct ih => exact direct.subclass.trans ih

theorem Overrides.declares (overrides : Overrides hier method super)
    (declares : Declares hier super info) :
    ∃ info', Declares hier method info' ∧ info'.signature = info.signature := by
  induction overrides generalizing info with
  | refl => exact ⟨info, declares, rfl⟩
  | tail _ direct ih =>
    obtain ⟨upper, lower, declares', found, same, -⟩ := direct.declared
    obtain ⟨info', first, agree⟩ := ih declares'
    cases found.unique declares
    exact ⟨info', first, agree.trans same⟩

theorem Overrides.declares_super
    (overrides : Overrides hier method super) (declares : Declares hier method info) :
    ∃ info', Declares hier super info' ∧ info.signature = info'.signature := by
  induction overrides with
  | refl => exact ⟨info, declares, rfl⟩
  | tail _ direct ih =>
    obtain ⟨last, declares', agree⟩ := ih
    obtain ⟨lower, upper, here, there, same, -⟩ := direct.declared
    cases here.unique declares'
    exact ⟨upper, there, agree.trans same⟩

theorem DeclaresIn.of_overrides (declares : DeclaresIn hier sig self method)
    (overrides : Overrides hier method super) : DeclaresIn hier sig self super := by
  obtain ⟨info, found, same⟩ := declares.declared
  obtain ⟨info', found', agree⟩ := overrides.declares_super found
  exact ⟨overrides.subclass.trans declares.subclass, info', found', agree.symm.trans same⟩

theorem Declares.eq_of_signature
    (declares : Declares hier method info) (declares' : Declares hier method' info')
    (owner : method.owner = method'.owner) (same : info.signature = info'.signature) :
    method = method' := by
  have found := declares.found
  rw [owner] at found
  have position := position_unique hier found declares'.found same
  cases method
  cases method'
  simp only at owner position
  rw [owner, position]

theorem Overrides.eq_of_subclass (declares : Declares hier super info)
    (overrides : Overrides hier method super)
    (subclass : SubClass hier method.owner super.owner) : method = super := by
  obtain ⟨info', declares', same⟩ := overrides.declares declares
  exact declares'.eq_of_signature declares (Nat.le_antisymm subclass.le overrides.subclass.le) same

/-! ## Declared blocks -/

theorem checkMethodAccess_iff (isVirtual : block.isVirtual = true)
    (subclass : SubClass hier block.owner self) :
    hier.checkMethodAccess block self = true ↔ hier.Overridable block.info block.owner self := by
  have visible : block.flags.isPrivate = false := by
    simp only [MethodBlock.isVirtual, Bool.not_eq_true', Bool.or_eq_false_iff] at isVirtual
    exact isVirtual.1.2
  have above := (isSubClassOf_iff hier block.owner self).mpr subclass
  unfold checkMethodAccess checkMethodOrFieldAccess Overridable
  rw [visible, above, ← isSameRuntimePackage_iff]
  by_cases isPublic : block.flags.isPublic = true
  · simp [isPublic, MethodBlock.info]
  · by_cases isProtected : block.flags.isProtected = true
    · simp [isPublic, isProtected, MethodBlock.info]
    · simp [isPublic, isProtected, MethodBlock.info]

theorem methods_declared (isClass : (hier.file self).isInterface = false) {position : Nat}
    (found : (hier.declaredMethods self).1[position]? = some block) :
    (hier.link self).methods[position]? = some block := by
  rw [(link_class isClass).1, List.getElem?_append_left (List.getElem?_eq_some_iff.mp found).1]
  exact found

theorem Declares.block (declares : Declares hier method info) :
    ∃ block ∈ (hier.declaredMethods method.owner).1,
      (hier.link method.owner).methods[method.position]? = some block ∧
      block.ref = method ∧ block.info = info := by
  have found := declares.found
  rw [← map_info_declaredMethods, getElem?_map, Option.map_eq_some_iff] at found
  obtain ⟨block, listed, same⟩ := found
  obtain ⟨owner, place, _⟩ := prepareMethods_declared listed
  refine ⟨block, mem_of_getElem? listed, methods_declared declares.isClass listed, ?_, same⟩
  rw [MethodBlock.ref, owner, place, Nat.zero_add]

section
variable (isClass : (hier.file self).isInterface = false)
include isClass

theorem declares_block (mem : block ∈ (hier.declaredMethods self).1)
    (isVirtual : block.isVirtual = true) :
    Declares hier block.ref block.info ∧
      (hier.link block.owner).methods[block.position]? = some block := by
  obtain ⟨rfl, _, found⟩ := declaredMethods_owner mem
  exact ⟨⟨isClass, declaredMethods_found mem, isVirtual⟩, methods_declared isClass found⟩

theorem declaresIn_block (declared : block ∈ (hier.declaredMethods self).1)
    (isVirtual : block.isVirtual = true) (same : block.signature = sig) :
    DeclaresIn hier sig self block.ref := by
  refine ⟨?_, block.info, (declares_block isClass declared isVirtual).1, same⟩
  show SubClass hier block.owner self
  rw [(declaredMethods_owner declared).1]
  exact .refl

omit isClass in
theorem superTable_some {index : Nat} (found : (hier.superTable self)[index]? = some entry) :
    ∃ super ∈ (hier.file self).super, (hier.link super).methodTable[index]? = some entry := by
  cases linked : hier.linkedSuper self with
  | none =>
    rw [superTable_none linked] at found
    simp at found
  | some super =>
    rw [superTable_eq linked] at found
    exact ⟨super, (linkedSuper_class linked).2, found⟩

theorem methodTable_declares (mem : entry ∈ (hier.link self).methodTable)
    (real : entry.origin = .declared) :
    SubClass hier entry.owner self ∧ Declares hier entry.ref entry.info ∧
      (hier.link entry.owner).methods[entry.position]? = some entry := by
  induction self using Nat.strong_induction_on with
  | _ self ih =>
    obtain ⟨index, found⟩ := mem_iff_getElem?.mp mem
    cases methodTable_filled isClass (indexed_superTable hier self) found with
    | declared declared isVirtual =>
      obtain ⟨declares, block⟩ := declares_block isClass declared isVirtual
      refine ⟨?_, declares, block⟩
      rw [(declaredMethods_owner declared).1]
      exact .refl
    | inherited kept =>
      obtain ⟨super, above, kept⟩ := superTable_some kept
      obtain ⟨subclass, facts⟩ := ih super (hier.super_lt self super above)
        (hier.super_class self super above) (mem_of_getElem? kept)
      exact ⟨.inherits above subclass, facts⟩
    | miranda _ _ shape => exact absurd (shape ▸ real) (mirandaBlock_origin _ _ _)

omit isClass in
theorem declaredMethods_slot
    (declared : block ∈ (hier.declaredMethods self).1) (isVirtual : block.isVirtual = true)
    (place : (hier.superTable self)[block.methodTableIndex]? = some entry) :
    block.signature = entry.signature ∧ hier.checkMethodAccess entry self = true := by
  have assigned := prepareMethods_assigned declared isVirtual
  unfold Assigned at assigned
  split at assigned
  · rename_i chosen overridden
    obtain ⟨listed, agree, access⟩ := overridden_spec overridden
    have slot := (indexed_superTable hier self).mem_iff.mp listed
    rw [← assigned, place] at slot
    cases slot
    exact ⟨agree, access⟩
  · have bound := (List.getElem?_eq_some_iff.mp place).1
    omega

theorem directlyOverrides_of_access {super : Nat} (mem : super ∈ (hier.file self).super)
    (declared : block ∈ (hier.declaredMethods self).1) (isVirtual : block.isVirtual = true)
    (inherited : entry ∈ (hier.link super).methodTable) (real : entry.origin = .declared)
    (same : block.signature = entry.signature) (access : hier.checkMethodAccess entry self = true) :
    DirectlyOverrides hier block.ref entry.ref := by
  obtain ⟨above, declares, _⟩ :=
    methodTable_declares (hier.super_class self super mem) inherited real
  have owner := (declaredMethods_owner declared).1
  have below : SubClass hier entry.owner self := .inherits mem above
  constructor
  · show SubClass hier entry.owner block.owner
    rw [owner]
    exact below
  · show entry.owner ≠ block.owner
    have smaller := hier.super_lt self super mem
    have := above.le
    omega
  · have overridable := (checkMethodAccess_iff declares.isVirtual below).mp access
    refine ⟨block.info, entry.info, (declares_block isClass declared isVirtual).1, declares,
      same, ?_⟩
    show hier.Overridable entry.info entry.owner block.owner
    rw [owner]
    exact overridable

omit isClass in
theorem access_of_directlyOverrides {super : Nat} (mem : super ∈ (hier.file self).super)
    (inherited : entry ∈ (hier.link super).methodTable) (real : entry.origin = .declared)
    (direct : DirectlyOverrides hier method entry.ref) (owner : method.owner = self) :
    hier.checkMethodAccess entry self = true := by
  obtain ⟨above, declares, _⟩ :=
    methodTable_declares (hier.super_class self super mem) inherited real
  obtain ⟨_, _, _, found, _, overridable⟩ := direct.declared
  cases found.unique declares
  rw [checkMethodAccess_iff declares.isVirtual (.inherits mem above), ← owner]
  exact overridable

theorem signature_of_ref (mem : entry ∈ (hier.link self).methodTable)
    (real : entry.origin = .declared) (declares : DeclaresIn hier sig target entry.ref) :
    entry.signature = sig := by
  obtain ⟨info, found, same⟩ := declares.declared
  cases (methodTable_declares isClass mem real).2.1.unique found
  exact same

theorem methodTable_ref_inj (mem : first ∈ (hier.link self).methodTable)
    (member' : second ∈ (hier.link self).methodTable) (real : first.origin = .declared)
    (real' : second.origin = .declared) (equal : first.ref = second.ref) : first = second := by
  obtain ⟨_, _, block⟩ := methodTable_declares isClass mem real
  obtain ⟨_, _, block'⟩ := methodTable_declares isClass member' real'
  have owners : first.owner = second.owner := congrArg MethodRef.owner equal
  have positions : first.position = second.position := congrArg MethodRef.position equal
  rw [owners, positions, block'] at block
  exact (Option.some.inj block).symm

end

/-! ## Dispatch -/

/-- The method that the rules select for a class: it overrides the method, and no other
method of the class and its superclasses that does is more derived. -/
structure Selects (hier : Hierarchy) (target : Nat) (method selected : MethodRef) : Prop where
  overrides : Overrides hier selected method
  subclass : SubClass hier selected.owner target
  derived : ∀ other, Overrides hier other method →
    SubClass hier other.owner target → SubClass hier other.owner selected.owner

/-- The conditions under which one slot is enough for a signature: the methods that a
declaration overrides directly form a chain, and a declaration that overrides a method
overrides directly the one that the superclass selects for it. -/
structure Regular (hier : Hierarchy) (sig : Utf8 × Utf8) (target : Nat) : Prop where
  chain : ∀ method super super', DeclaresIn hier sig target method →
    DirectlyOverrides hier method super → DirectlyOverrides hier method super' →
    Overrides hier super super' ∨ Overrides hier super' super
  direct : ∀ method super above selected, DeclaresIn hier sig target method →
    Overrides hier method super → above ∈ (hier.file method.owner).super →
    Selects hier above super selected → DirectlyOverrides hier method selected

def Dispatches (hier : Hierarchy) (sig : Utf8 × Utf8) (target : Nat) : Prop :=
  ∀ method, DeclaresIn hier sig target method →
    ∃ block entry, (hier.link method.owner).methods[method.position]? = some block ∧
      (hier.link target).methodTable[block.methodTableIndex]? = some entry ∧
      entry.origin = .declared ∧ Selects hier target method entry.ref

theorem Regular.above {super : Nat} (regular : Regular hier sig self)
    (mem : super ∈ (hier.file self).super) : Regular hier sig super :=
  ⟨fun method super super' declares => regular.chain method super super' (declares.mono mem),
    fun method super target selected declares =>
      regular.direct method super target selected (declares.mono mem)⟩

theorem SubClass.of_ne (subclass : SubClass hier target self) (ne : target ≠ self) :
    ∃ super ∈ (hier.file self).super, SubClass hier target super := by
  cases subclass with
  | refl => exact absurd rfl ne
  | inherits mem above => exact ⟨_, mem, above⟩

theorem linkedSuper_of_class (isClass : (hier.file self).isInterface = false)
    {super : Nat} (mem : super ∈ (hier.file self).super) :
    hier.linkedSuper self = some super := by
  simpa [linkedSuper, isClass] using mem

theorem index_of_overrides (regular : Regular hier sig self)
    (visible : PublicInterfaces hier sig self) (isClass : (hier.file self).isInterface = false)
    {super : Nat} (mem : super ∈ (hier.file self).super)
    (dispatches : Dispatches hier sig super)
    (found : (hier.link super).methodTable[index]? = some entry)
    (real : entry.origin = .declared) (selects : Selects hier super method entry.ref)
    (overrides : Overrides hier block.ref method)
    (declared : block ∈ (hier.declaredMethods self).1)
    (isVirtual : block.isVirtual = true) (agree : block.signature = sig) :
    block.methodTableIndex = index := by
  have isClass' := hier.super_class self super mem
  have linked := superTable_eq (linkedSuper_of_class isClass mem)
  have indexed := indexed_link hier super isClass'
  have owner := (declaredMethods_owner declared).1
  have inherited := mem_of_getElem? found
  obtain ⟨above, entryDeclares, _⟩ := methodTable_declares isClass' inherited real
  have declares := declaresIn_block isClass declared isVirtual agree
  -- The method overrides the entry directly, so the entry is accessible.
  have mem' : super ∈ (hier.file block.ref.owner).super := by
    rw [MethodBlock.ref, owner]
    exact mem
  have direct := regular.direct block.ref method super entry.ref declares overrides mem' selects
  obtain ⟨lower, upper, first, second, same, -⟩ := direct.declared
  cases first.unique (declares_block isClass declared isVirtual).1
  cases second.unique entryDeclares
  have access := access_of_directlyOverrides mem inherited real direct owner
  obtain ⟨chosen, taken, same', access'⟩ := declaredMethods_overrides declared isVirtual
    (linked ▸ inherited) same access
  rw [linked] at taken
  by_cases realChosen : chosen.origin = .declared
  · have chosenInherited := mem_of_getElem? taken
    obtain ⟨chosenAbove, chosenDeclares, chosenBlock⟩ :=
      methodTable_declares isClass' chosenInherited realChosen
    have direct' := directlyOverrides_of_access isClass mem declared isVirtual
      chosenInherited realChosen same' access'
    have equal : chosen.ref = entry.ref := by
      rcases regular.chain _ _ _ declares direct' direct with lower | upper
      · -- The chosen entry overrides the one of the slot, which is most derived.
        exact lower.eq_of_subclass entryDeclares
          (selects.derived _ (lower.trans selects.overrides) chosenAbove)
      · obtain ⟨last, last', listed, place, _, selected⟩ :=
          dispatches chosen.ref ⟨chosenAbove, _, chosenDeclares, same'.symm.trans agree⟩
        cases chosenBlock.symm.trans listed
        rw [indexed _ _ taken, taken] at place
        cases place
        exact (upper.eq_of_subclass chosenDeclares (selected.derived _ upper above)).symm
    have sameBlock := methodTable_ref_inj isClass' chosenInherited inherited realChosen real equal
    rw [← indexed _ _ taken, sameBlock, indexed _ _ found]
  · -- A Miranda would be the only entry with the signature.
    have sole := soleMirandas_link (visible.above mem) isClass'
    exact (sole.sole taken found realChosen (same'.symm.trans agree) (same.symm.trans agree)).symm

theorem dispatches_step (regular : Regular hier sig self)
    (visible : PublicInterfaces hier sig self) (isClass : (hier.file self).isInterface = false)
    (above : ∀ super ∈ (hier.file self).super, Dispatches hier sig super) :
    Dispatches hier sig self := by
  have indexed := indexed_superTable hier self
  intro method declaresIn
  obtain ⟨subclass, info, declares, same⟩ := declaresIn
  obtain rfl | here := eq_or_ne method.owner self
  · obtain ⟨block, listed, found, ref, rfl⟩ := declares.block
    refine ⟨block, block, found, methodTable_declared isClass indexed listed declares.isVirtual,
      (declaredMethods_owner listed).2.1, ?_⟩
    rw [ref]
    exact ⟨.refl, .refl, fun other _ subclass => subclass⟩
  · obtain ⟨super, mem, subclass'⟩ := subclass.of_ne here
    have linked := superTable_eq (linkedSuper_of_class isClass mem)
    obtain ⟨block, entry, found, place, real, selects⟩ :=
      above super mem method ⟨subclass', info, declares, same⟩
    refine ⟨block, ?_⟩
    by_cases taken : ∃ own ∈ (hier.declaredMethods self).1, own.isVirtual = true ∧
        own.methodTableIndex = block.methodTableIndex
    · obtain ⟨own, declared, isVirtual, index⟩ := taken
      have owner := (declaredMethods_owner declared).1
      have taken : (hier.superTable self)[own.methodTableIndex]? = some entry := by
        rw [index, linked]
        exact place
      obtain ⟨agree, access⟩ := declaredMethods_slot declared isVirtual taken
      have direct := directlyOverrides_of_access isClass mem declared isVirtual
        (mem_of_getElem? place) real agree access
      refine ⟨own, found, ?_, (declaredMethods_owner declared).2.1, ?_⟩
      · rw [← index]
        exact methodTable_declared isClass indexed declared isVirtual
      · constructor
        · exact .head direct selects.overrides
        · show SubClass hier own.owner self
          rw [owner]
          exact .refl
        · intro other _ below
          show SubClass hier other.owner own.owner
          rw [owner]
          exact below
    · push Not at taken
      refine ⟨entry, found, ?_, real, selects.overrides, .inherits mem selects.subclass, ?_⟩
      · apply methodTable_kept isClass
        · exact realTable_inherited indexed (linked ▸ place) taken
        · rw [real]
          simp
      · intro other overrides below
        by_cases last : other.owner = self
        · -- A method of the class that overrides the method would have taken the slot.
          obtain ⟨info', declares', agree⟩ := overrides.declares declares
          obtain ⟨own, declared, -, rfl, rfl⟩ := declares'.block
          rw [last] at declared
          exact absurd (index_of_overrides regular visible isClass mem (above super mem) place
            real selects overrides declared declares'.isVirtual (agree.trans same))
            (taken own declared declares'.isVirtual)
        · obtain ⟨super', member', below'⟩ := below.of_ne last
          cases Option.some.inj (mem.symm.trans member')
          exact selects.derived other overrides below'

theorem dispatches_link (regular : Regular hier sig self) (visible : PublicInterfaces hier sig self)
    (isClass : (hier.file self).isInterface = false) : Dispatches hier sig self := by
  induction self using Nat.strong_induction_on with
  | _ self ih =>
    apply dispatches_step regular visible isClass
    intro super mem
    exact ih super (hier.super_lt self super mem) (regular.above mem) (visible.above mem)
      (hier.super_class self super mem)

theorem Selects.unique
    (declares : Declares hier method info) (selects : Selects hier self method selected)
    (selects' : Selects hier self method selected') : selected = selected' := by
  obtain ⟨first, declares', same⟩ := selects.overrides.declares declares
  obtain ⟨second, declares'', same'⟩ := selects'.overrides.declares declares
  have lower := selects.derived selected' selects'.overrides selects'.subclass
  have upper := selects'.derived selected selects.overrides selects.subclass
  exact declares'.eq_of_signature declares'' (Nat.le_antisymm upper.le lower.le)
    (same.trans same'.symm)

/-! ## What right dispatch needs -/

theorem Dispatches.slot_of_overrides (dispatches : Dispatches hier sig method.owner)
    (declares : DeclaresIn hier sig method.owner method) (overrides : Overrides hier method super)
    (found : (hier.link method.owner).methods[method.position]? = some block)
    (found' : (hier.link super.owner).methods[super.position]? = some block') :
    (hier.link method.owner).methodTable[block'.methodTableIndex]? = some block ∧
      block.methodTableIndex = block'.methodTableIndex := by
  obtain ⟨_, entry, listed, place, real, selects⟩ :=
    dispatches super (declares.of_overrides overrides)
  cases listed.symm.trans found'
  obtain ⟨info, declared, -⟩ := declares.declared
  obtain ⟨info', declared', -⟩ := overrides.declares_super declared
  have ref : entry.ref = method :=
    selects.unique declared' ⟨overrides, .refl, fun other _ below => below⟩
  have listed' := (methodTable_declares declared.isClass (mem_of_getElem? place) real).2.2
  have owner : entry.owner = method.owner := congrArg MethodRef.owner ref
  have position : entry.position = method.position := congrArg MethodRef.position ref
  rw [owner, position, found] at listed'
  cases listed'
  exact ⟨place, indexed_link hier _ declared.isClass _ _ place⟩

section
variable (dispatches : ∀ target, SubClass hier target self → Dispatches hier sig target)
include dispatches

theorem overrides_of_slot (declares : DeclaresIn hier sig self method)
    (declares' : DeclaresIn hier sig self super) (below : SubClass hier super.owner method.owner)
    (found : (hier.link method.owner).methods[method.position]? = some block)
    (found' : (hier.link super.owner).methods[super.position]? = some block')
    (same : block.methodTableIndex = block'.methodTableIndex) : Overrides hier method super := by
  have here := dispatches _ declares.subclass
  obtain ⟨_, entry, listed, place, _, selects⟩ := here super ⟨below, declares'.declared⟩
  cases listed.symm.trans found'
  have own := (here.slot_of_overrides declares.here .refl found found).1
  rw [same, place] at own
  cases own
  obtain ⟨info, declared, -⟩ := declares.declared
  obtain ⟨block', -, listed', ref, -⟩ := declared.block
  cases listed'.symm.trans found
  exact ref ▸ selects.overrides

theorem regular_of_dispatches : Regular hier sig self := by
  constructor
  · intro method super super' declares direct direct'
    have here := dispatches _ declares.subclass
    obtain ⟨info, upper, declared, found, -⟩ := direct.declared
    obtain ⟨_, upper', -, found', -⟩ := direct'.declared
    obtain ⟨block, -, listed, -⟩ := declared.block
    obtain ⟨first, -, listed', -⟩ := found.block
    obtain ⟨second, -, listed'', -⟩ := found'.block
    have slot := (here.slot_of_overrides declares.here (.single direct) listed listed').2
    have slot' := (here.slot_of_overrides declares.here (.single direct') listed listed'').2
    have above := declares.of_overrides (.single direct)
    have above' := declares.of_overrides (.single direct')
    rcases direct.subclass.total direct'.subclass with below | below
    · exact .inr (overrides_of_slot dispatches above' above below listed'' listed'
        (slot'.symm.trans slot))
    · exact .inl (overrides_of_slot dispatches above above' below listed' listed''
        (slot.symm.trans slot'))
  · intro method super target selected declares overrides mem selects
    have here := dispatches _ declares.subclass
    have upper := declares.of_overrides overrides
    have above : SubClass hier target method.owner := .inherits mem .refl
    obtain ⟨info, declared, -⟩ := declares.declared
    obtain ⟨info', declared', -⟩ := upper.declared
    obtain ⟨block, own, listed, ref, rfl⟩ := declared.block
    obtain ⟨first, entry, listed', place, real, selects'⟩ :=
      dispatches target (above.trans declares.subclass) super
        ⟨selects.overrides.subclass.trans selects.subclass, upper.declared⟩
    rw [← (here.slot_of_overrides declares.here overrides listed listed').2] at place
    have linked := superTable_eq (linkedSuper_of_class declared.isClass mem)
    obtain ⟨agree, access⟩ := declaredMethods_slot own declared.isVirtual (linked ▸ place)
    have direct := directlyOverrides_of_access declared.isClass mem own declared.isVirtual
      (mem_of_getElem? place) real agree access
    rwa [ref, selects'.unique declared' selects] at direct

end

theorem regular_of_overridable
    (overridable : ∀ super info subclass, Declares hier super info →
      SubClass hier super.owner subclass →
      hier.Overridable info super.owner subclass) : Regular hier sig self := by
  have related {method super : MethodRef} {info info' : MethodInfo}
      (declares : Declares hier method info) (declares' : Declares hier super info')
      (same : info.signature = info'.signature)
      (below : SubClass hier super.owner method.owner)
      (strict : super.owner ≠ method.owner) : DirectlyOverrides hier method super :=
    ⟨below, strict, info, info', declares, declares', same,
      overridable super info' method.owner declares' below⟩
  have comparable {method super : MethodRef} {info info' : MethodInfo}
      (declares : Declares hier method info) (declares' : Declares hier super info')
      (same : info.signature = info'.signature)
      (below : SubClass hier super.owner method.owner) :
      Overrides hier method super := by
    by_cases owner : super.owner = method.owner
    · rw [declares.eq_of_signature declares' owner.symm same]
      exact .refl
    · exact .single (related declares declares' same below owner)
  constructor
  · intro method super super' _ direct direct'
    obtain ⟨info, upper, declares, found, same, -⟩ := direct.declared
    obtain ⟨info', upper', declares', found', same', -⟩ := direct'.declared
    cases declares.unique declares'
    rcases direct.subclass.total direct'.subclass with below | below
    · exact .inr (comparable found' found (same'.symm.trans same) below)
    · exact .inl (comparable found found' (same.symm.trans same') below)
  · intro method super target selected declaresIn overrides mem selects
    obtain ⟨info, declares, -⟩ := declaresIn.declared
    obtain ⟨info', declares', same⟩ := overrides.declares_super declares
    obtain ⟨info'', declares'', agree⟩ := selects.overrides.declares declares'
    have smaller := hier.super_lt _ _ mem
    have bound := selects.subclass.le
    exact related declares declares'' (same.trans agree.symm) (.inherits mem selects.subclass)
      (by omega)

def shown (isPublic : Bool) : MethodInfo := ⟨0, 0, ⟨isPublic, false, false, false, false⟩, false⟩

def publicPair : Hierarchy :=
  ofFiles [⟨"java/lang/Object".toList, 0, false, none, [], []⟩,
    ⟨"p/A".toList, 0, false, some 0, [], [shown true]⟩,
    ⟨"q/B".toList, 0, false, some 1, [], [shown true]⟩] (by decide)

theorem publicPair_public (target : Nat) :
    ∀ method ∈ (publicPair.file target).methods, method.flags.isPublic = true := by
  match target with
  | 0 | 1 | 2 => decide
  | target + 3 =>
    intro method mem
    cases mem

/-- A package-private method, a public one in another package below it, and a third
one back in the first package, which overrides both. -/
def crossedPackages : Hierarchy :=
  ofFiles [⟨"java/lang/Object".toList, 0, false, none, [], []⟩,
    ⟨"p/A".toList, 0, false, some 0, [], [shown false]⟩,
    ⟨"q/B".toList, 0, false, some 1, [], [shown true]⟩,
    ⟨"p/C".toList, 0, false, some 2, [], [shown true]⟩] (by decide)

end JamVM.Class.Hierarchy
