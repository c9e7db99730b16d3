import JamVM.Class.Override

/-! # Interface dispatch

The offsets of an interface-table entry are computed once, when a class adds the
interface, and are copied to all subclasses. They lead to the nearest declaration as
long as later declarations take the slot that was found then.
-/

namespace JamVM.Class

open Nat List

inductive LinkageError
  | incompatibleClassChange (message : String)
  | abstractMethod (name : Utf8)
  deriving DecidableEq

namespace Hierarchy

section
variable (hier : Hierarchy)

def lookupVirtualMethod (self : Nat) (method : MethodBlock) : Except LinkageError MethodBlock :=
  let block := hier.link self
  let select (index : Nat) : Except LinkageError MethodBlock :=
    let selected := block.methodTable.getD index default
    if selected.flags.isAbstract then .error (.abstractMethod selected.name) else .ok selected
  if method.flags.isPrivate then
    .ok method
  else if (hier.file method.owner).isInterface then
    match block.imethodTable.find? fun entry => method.owner = entry.interface with
    | none => .error (.incompatibleClassChange "unimplemented interface")
    | some entry => select (entry.offsets.getD method.methodTableIndex 0)
  else
    select method.methodTableIndex

def throughITable (self : Nat) (entry : ITableEntry) (method : MethodBlock) : Option MethodBlock :=
  entry.offsets[method.methodTableIndex]?.bind fun index => (hier.link self).methodTable[index]?

/-! ## Nearest declarations -/

structure Nearest (sig : Utf8 × Utf8) (target : Nat) (method : MethodRef) : Prop where
  declaresIn : DeclaresIn hier sig target method
  derived : ∀ other, DeclaresIn hier sig target other → SubClass hier other.owner method.owner

inductive FirstPublic (sig : Utf8 × Utf8) : Nat → MethodRef → Prop
  | here {target position : Nat} {info : MethodInfo} :
      Declares hier ⟨target, position⟩ info → info.signature = sig →
      info.flags.isPublic = true → FirstPublic sig target ⟨target, position⟩
  | above {target super : Nat} {method : MethodRef} :
      (∀ position info, Declares hier ⟨target, position⟩ info →
        info.signature = sig → info.flags.isPublic = false) →
      super ∈ (hier.file target).super → FirstPublic sig super method →
      FirstPublic sig target method

end

variable {hier : Hierarchy} {sig : Utf8 × Utf8} {self super : Nat}
  {method other : MethodRef}

theorem DeclaresIn.eq_of_owner (declares : DeclaresIn hier sig self method)
    (declares' : DeclaresIn hier sig self other)
    (owner : method.owner = other.owner) : method = other := by
  obtain ⟨info, found, same⟩ := declares.declared
  obtain ⟨info', found', same'⟩ := declares'.declared
  exact found.eq_of_signature found' owner (same.trans same'.symm)

theorem Nearest.unique (nearest : Nearest hier sig self method)
    (nearest' : Nearest hier sig self other) : method = other := by
  apply nearest.declaresIn.eq_of_owner nearest'.declaresIn
  exact le_antisymm (nearest'.derived _ nearest.declaresIn).le
    (nearest.derived _ nearest'.declaresIn).le

theorem nearest_here (declares : DeclaresIn hier sig self method)
    (owner : method.owner = self) : Nearest hier sig self method := by
  refine ⟨declares, ?_⟩
  intro other declares'
  rw [owner]
  exact declares'.subclass

section
variable (absent : ∀ method, DeclaresIn hier sig self method → method.owner ≠ self)
  (mem : super ∈ (hier.file self).super)
include absent mem

theorem declaresIn_super : DeclaresIn hier sig self method ↔ DeclaresIn hier sig super method := by
  constructor
  · intro declares
    obtain ⟨super', member', above⟩ := declares.subclass.of_ne (absent method declares)
    cases Option.some.inj (mem.symm.trans member')
    exact ⟨above, declares.declared⟩
  · intro declares
    exact declares.mono mem

theorem nearest_super : Nearest hier sig self method ↔ Nearest hier sig super method := by
  constructor
  · intro nearest
    exact ⟨(declaresIn_super absent mem).mp nearest.declaresIn,
      fun other declares => nearest.derived other (declares.mono mem)⟩
  · intro nearest
    exact ⟨nearest.declaresIn.mono mem,
      fun other declares => nearest.derived other ((declaresIn_super absent mem).mp declares)⟩

end

theorem nearest_exists (declares : DeclaresIn hier sig self method) :
    ∃ nearest, Nearest hier sig self nearest := by
  induction self using Nat.strong_induction_on with
  | _ self ih =>
    by_cases here : ∃ own, DeclaresIn hier sig self own ∧ own.owner = self
    · obtain ⟨own, declares', owner⟩ := here
      exact ⟨own, nearest_here declares' owner⟩
    · push Not at here
      obtain ⟨super, mem, -⟩ := declares.subclass.of_ne (here method declares)
      obtain ⟨nearest, found⟩ := ih super (hier.super_lt self super mem)
        ((declaresIn_super here mem).mp declares)
      exact ⟨nearest, (nearest_super here mem).mpr found⟩

theorem FirstPublic.declaresIn (first : FirstPublic hier sig self method) :
    DeclaresIn hier sig self method := by
  induction first with
  | here declares same => exact ⟨.refl, _, declares, same⟩
  | above _ mem _ ih => exact ih.mono mem

/-! ## Declarations and slots -/

def Nested (hier : Hierarchy) (sig : Utf8 × Utf8) (target : Nat) : Prop :=
  ∀ lower between upper, DeclaresIn hier sig target lower → DeclaresIn hier sig target between →
    SubClass hier between.owner lower.owner → between.owner ≠ lower.owner →
    SubClass hier upper.owner between.owner → upper.owner ≠ between.owner →
    DirectlyOverrides hier lower upper → DirectlyOverrides hier between upper

theorem Nested.above (nested : Nested hier sig self)
    (mem : super ∈ (hier.file self).super) : Nested hier sig super :=
  fun lower between upper declares declares' =>
    nested lower between upper (declares.mono mem) (declares'.mono mem)

theorem DeclaresIn.block (declares : DeclaresIn hier sig self method)
    (owner : method.owner = self) :
    ∃ block ∈ (hier.declaredMethods self).1, block.isVirtual = true ∧
      block.ref = method ∧ block.signature = sig := by
  obtain ⟨info, found, same⟩ := declares.declared
  obtain ⟨block, mem, -, ref, rfl⟩ := found.block
  rw [owner] at mem
  exact ⟨block, mem, found.isVirtual, ref, same⟩

section
variable (isClass : (hier.file self).isInterface = false)
include isClass in
theorem declaresIn_entry (mem : entry ∈ (hier.link self).methodTable)
    (real : entry.origin = .declared) (same : entry.signature = sig) :
    DeclaresIn hier sig self entry.ref :=
  have ⟨subclass, declares, _⟩ := methodTable_declares isClass mem real
  ⟨subclass, entry.info, declares, same⟩

theorem real_signature_ne (sole : SoleMirandas sig (hier.superTable self))
    (mem : entry ∈ hier.realTable self) (real : entry.origin = .declared)
    (listed : miranda ∈ (hier.placedInterfaces self).1.mirandas) (here : entry.signature = sig) :
    miranda.signature ≠ sig := by
  intro same
  obtain ⟨index, found⟩ := mem_iff_getElem?.mp mem
  rcases (placedInterfaces_cached hier self).1.placed miranda listed with
    ⟨old, target, place, bridge, agree⟩ | ⟨absent, -⟩
  · have other : old.origin ≠ .declared := by
      rw [bridge]
      simp
    have equal := (realTable_sole sole).sole place found other (agree.trans same) here
    subst equal
    rw [found] at place
    cases place
    exact other real
  · exact absent entry mem (here.trans same.symm)

/-- The nearest declaration is in the last slot of its signature, and a declaration in
another slot was left there by one that does not override it. -/
structure Lined (hier : Hierarchy) (sig : Utf8 × Utf8) (target : Nat) : Prop where
  shadowed : ∀ entry ∈ (hier.link target).methodTable, entry.origin = .declared →
    entry.signature = sig → ¬ Nearest hier sig target entry.ref →
    ∃ between, DeclaresIn hier sig target between ∧
      SubClass hier entry.owner between.owner ∧ entry.owner ≠ between.owner ∧
      ¬ DirectlyOverrides hier between entry.ref
  last : ∀ method, Nearest hier sig target method →
    ∃ entry index, (hier.link target).methodTable[index]? = some entry ∧
      entry.ref = method ∧ entry.origin = .declared ∧
      ∀ (index' : Nat) (entry' : MethodBlock),
        (hier.link target).methodTable[index']? = some entry' →
        entry'.signature = sig → index' ≤ index

variable (visible : PublicInterfaces hier sig self) (nested : Nested hier sig self)
  (mem : super ∈ (hier.file self).super)
include isClass nested mem in
theorem slot_nearest (lined : Lined hier sig super)
    (declared : block ∈ (hier.declaredMethods self).1) (isVirtual : block.isVirtual = true)
    (same : block.signature = sig)
    (taken : (hier.link super).methodTable[block.methodTableIndex]? = some chosen)
    (real : chosen.origin = .declared) : Nearest hier sig super chosen.ref := by
  have linked := superTable_eq (linkedSuper_of_class isClass mem)
  have inherited := mem_of_getElem? taken
  obtain ⟨agree, access⟩ := declaredMethods_slot declared isVirtual (linked ▸ taken)
  have direct := directlyOverrides_of_access isClass mem declared isVirtual inherited real
    agree access
  by_contra other
  obtain ⟨between, declares, below, strict, misses⟩ :=
    lined.shadowed chosen inherited real (agree.symm.trans same) other
  have owner := (declaredMethods_owner declared).1
  have smaller := hier.super_lt self super mem
  have bound := declares.subclass.le
  apply misses
  apply nested block.ref between chosen.ref (declaresIn_block isClass declared isVirtual same)
    (declares.mono mem) _ _ below strict direct
  · show SubClass hier between.owner block.owner
    rw [owner]
    exact .inherits mem declares.subclass
  · show between.owner ≠ block.owner
    omega

include isClass visible nested mem in
theorem index_of_nearest (lined : Lined hier sig super)
    (declared : block ∈ (hier.declaredMethods self).1) (isVirtual : block.isVirtual = true)
    (same : block.signature = sig) (found : (hier.link super).methodTable[index]? = some entry)
    (agree : entry.signature = sig)
    (nearest : entry.origin = .declared → Nearest hier sig super entry.ref)
    (access : hier.checkMethodAccess entry self = true) : block.methodTableIndex = index := by
  have isClass' := hier.super_class self super mem
  have linked := superTable_eq (linkedSuper_of_class isClass mem)
  have sole := soleMirandas_link (visible.above mem) isClass'
  have inherited := mem_of_getElem? found
  obtain ⟨chosen, taken, agree', -⟩ := declaredMethods_overrides declared isVirtual
    (linked ▸ inherited) (same.trans agree.symm) access
  rw [linked] at taken
  have equal : chosen.signature = sig := agree'.symm.trans same
  by_cases realChosen : chosen.origin = .declared
  · by_cases real : entry.origin = .declared
    · have first := slot_nearest isClass nested mem lined declared isVirtual same taken realChosen
      have block := methodTable_ref_inj isClass' (mem_of_getElem? taken) inherited
        realChosen real (first.unique (nearest real))
      have indexed := indexed_link hier super isClass'
      rw [← indexed _ _ taken, block, indexed _ _ found]
    · exact sole.sole found taken real agree equal
  · exact (sole.sole taken found realChosen equal agree).symm

theorem methodTable_undeclared (isClass : (hier.file self).isInterface = false)
    (absent : ∀ method, DeclaresIn hier sig self method → method.owner ≠ self)
    {index : Nat}
    (found : (hier.superTable self)[index]? = some entry)
    (same : entry.signature = sig) :
    (hier.realTable self)[index]? = some entry := by
  apply realTable_inherited (indexed_superTable hier self) found
  intro own declared isVirtual place
  have agree := (declaredMethods_slot declared isVirtual (place ▸ found)).1
  exact absent own.ref (declaresIn_block isClass declared isVirtual (agree.trans same))
    (declaredMethods_owner declared).1

include isClass visible nested in
theorem lined_declared (above : ∀ super ∈ (hier.file self).super,
      Lined hier sig super) (declared : block ∈ (hier.declaredMethods self).1)
    (isVirtual : block.isVirtual = true) (same : block.signature = sig) : Lined hier sig self := by
  have indexed := indexed_superTable hier self
  have sole := soleMirandas_superTable visible
  have owner := (declaredMethods_owner declared).1
  have real := (declaredMethods_owner declared).2.1
  have declares := declaresIn_block isClass declared isVirtual same
  have nearest := nearest_here declares owner
  have placed := methodTable_declared isClass indexed declared isVirtual
  have placedReal := declaredTable_declared indexed (hier.distinct self) declared isVirtual
  -- The block is the only one of the class with the signature.
  have only {own : MethodBlock} (mem : own ∈ (hier.declaredMethods self).1)
      (isVirtual' : own.isVirtual = true) (same' : own.signature = sig) :
      own.ref = block.ref :=
    (nearest_here (declaresIn_block isClass mem isVirtual' same')
      (declaredMethods_owner mem).1).unique nearest
  constructor
  · intro entry mem real' same' other
    obtain ⟨index, found⟩ := mem_iff_getElem?.mp mem
    cases methodTable_filled isClass indexed found with
    | declared member' isVirtual' => exact absurd (only member' isVirtual' same' ▸ nearest) other
    | inherited kept untaken =>
      obtain ⟨super, above', kept⟩ := superTable_some kept
      have isClass' := hier.super_class self super above'
      have subclass := (methodTable_declares isClass' (mem_of_getElem? kept) real').1
      by_cases shadow : Nearest hier sig super entry.ref
      · have smaller := hier.super_lt self super above'
        have bound := subclass.le
        refine ⟨block.ref, declares, ?_, ?_, ?_⟩
        · show SubClass hier entry.owner block.owner
          rw [owner]
          exact .inherits above' subclass
        · show entry.owner ≠ block.owner
          omega
        · -- Otherwise the block would have taken the slot.
          intro direct
          have access :=
            access_of_directlyOverrides above' (mem_of_getElem? kept) real' direct owner
          exact untaken block declared isVirtual (index_of_nearest isClass visible nested above'
            (above super above') declared isVirtual same kept same' (fun _ => shadow) access)
      · obtain ⟨between, declares', facts⟩ := (above super above').shadowed entry
          (mem_of_getElem? kept) real' same' shadow
        exact ⟨between, declares'.mono above', facts⟩
    | miranda _ _ shape => exact absurd (shape ▸ real') (mirandaBlock_origin _ _ _)
  · intro method nearest'
    have equal := nearest'.unique nearest
    refine ⟨block, block.methodTableIndex, placed, equal.symm, real, ?_⟩
    intro index' entry' found' same'
    cases methodTable_filled isClass indexed found' with
    | declared member' isVirtual' place =>
      have equal := methodTable_ref_inj isClass (mem_of_getElem? found') (mem_of_getElem? placed)
        (declaredMethods_owner member').2.1 real (only member' isVirtual' same')
      exact le_of_eq (equal ▸ place.symm)
    | inherited kept =>
      cases slot : (hier.superTable self)[block.methodTableIndex]? with
      | none =>
        have bound := (List.getElem?_eq_some_iff.mp kept).1
        have new := List.getElem?_eq_none_iff.mp slot
        omega
      | some chosen =>
        have agree := (declaredMethods_slot declared isVirtual slot).1
        by_cases realChosen : chosen.origin = .declared
        · obtain ⟨super, above', taken⟩ := superTable_some slot
          have isClass' := hier.super_class self super above'
          have first := slot_nearest isClass nested above' (above super above') declared
            isVirtual same taken realChosen
          obtain ⟨entry, index, found, ref, real'', greatest⟩ := (above super above').last _ first
          have equal := methodTable_ref_inj isClass' (mem_of_getElem? found)
            (mem_of_getElem? taken) real'' realChosen ref
          subst equal
          have indexed' := indexed_link hier super isClass'
          have place : index = block.methodTableIndex :=
            (indexed' _ _ found).symm.trans (indexed' _ _ taken)
          rw [superTable_eq (linkedSuper_of_class isClass above')] at kept
          exact place ▸ greatest index' entry' kept same'
        · exact le_of_eq (sole.sole slot kept realChosen (agree.symm.trans same) same')
    | @miranda source _ listed _ shape =>
      subst shape
      exact absurd same' (real_signature_ne sole (mem_of_getElem? placedReal) real listed same)

include isClass visible in
theorem lined_undeclared (above : ∀ super ∈ (hier.file self).super, Lined hier sig super)
    (absent : ∀ method, DeclaresIn hier sig self method → method.owner ≠ self) :
    Lined hier sig self := by
  have indexed := indexed_superTable hier self
  have sole := soleMirandas_superTable visible
  have undeclared {own : MethodBlock} (mem : own ∈ (hier.declaredMethods self).1)
      (isVirtual : own.isVirtual = true) : own.signature ≠ sig := fun same =>
    absent own.ref (declaresIn_block isClass mem isVirtual same) (declaredMethods_owner mem).1
  constructor
  · intro entry mem real same other
    obtain ⟨index, found⟩ := mem_iff_getElem?.mp mem
    cases methodTable_filled isClass indexed found with
    | declared member' isVirtual => exact absurd same (undeclared member' isVirtual)
    | inherited kept =>
      obtain ⟨super, above', kept⟩ := superTable_some kept
      rw [nearest_super absent above'] at other
      obtain ⟨between, declares, facts⟩ := (above super above').shadowed entry
        (mem_of_getElem? kept) real same other
      exact ⟨between, declares.mono above', facts⟩
    | miranda _ _ shape => exact absurd (shape ▸ real) (mirandaBlock_origin _ _ _)
  · intro method nearest
    obtain ⟨super, above', -⟩ :=
      nearest.declaresIn.subclass.of_ne (absent method nearest.declaresIn)
    have linked := superTable_eq (linkedSuper_of_class isClass above')
    rw [nearest_super absent above'] at nearest
    obtain ⟨entry, index, found, ref, real, greatest⟩ := (above super above').last method nearest
    have same := signature_of_ref (hier.super_class self super above') (mem_of_getElem? found)
      real (ref ▸ nearest.declaresIn)
    have kept := methodTable_undeclared isClass absent (linked ▸ found) same
    refine ⟨entry, index, methodTable_kept isClass kept (by simp [real]), ref, real, ?_⟩
    intro index' entry' found' same'
    cases methodTable_filled isClass indexed found' with
    | declared member' isVirtual => exact absurd same' (undeclared member' isVirtual)
    | inherited kept' =>
      rw [linked] at kept'
      exact greatest index' entry' kept' same'
    | miranda listed _ shape =>
      subst shape
      exact absurd same' (real_signature_ne sole (mem_of_getElem? kept) real listed same)

include isClass visible nested in
theorem lined_link : Lined hier sig self := by
  induction self using Nat.strong_induction_on with
  | _ self ih =>
    have above : ∀ super ∈ (hier.file self).super, Lined hier sig super :=
      fun super mem => ih super (hier.super_lt self super mem)
        (hier.super_class self super mem) (visible.above mem) (nested.above mem)
    by_cases here : ∃ method, DeclaresIn hier sig self method ∧ method.owner = self
    · obtain ⟨method, declares, owner⟩ := here
      obtain ⟨block, declared, isVirtual, -, same⟩ := declares.block owner
      exact lined_declared isClass visible nested above declared isVirtual same
    · push Not at here
      exact lined_undeclared isClass visible above here

end

/-! ## Offsets -/

theorem prepareMethods_interface {method : MethodBlock}
    (found : ((hier.prepareMethods [] self position newMethods methods).1.filter
      MethodBlock.isVirtual)[rank]? = some method) :
    method.methodTableIndex = newMethods + rank := by
  induction methods generalizing position newMethods rank with
  | nil => simp [prepareMethods] at found
  | cons info rest ih =>
    rw [prepareMethods_cons] at found
    by_cases isVirtual : info.isVirtual = true
    · have assigned : hier.assignIndex [] self newMethods info = (newMethods, newMethods + 1) := by
        simp [assignIndex, isVirtual, overridden]
      rw [assigned, filter_cons_of_pos (by exact isVirtual)] at found
      cases rank with
      | zero =>
        cases found
        rfl
      | succ =>
        have later := ih found
        omega
    · have assigned : hier.assignIndex [] self newMethods info = (0, newMethods) := by
        simp [assignIndex, isVirtual]
      rw [assigned, filter_cons_of_neg (by exact isVirtual)] at found
      exact ih found

section
variable {method : MethodBlock} (isInterface : (hier.file interface).isInterface = true)
  (mem : method ∈ (hier.link interface).methods) (isVirtual : method.isVirtual = true)
include isInterface mem isVirtual

theorem interface_rank : ((hier.link interface).methods.filter MethodBlock.isVirtual)[
      method.methodTableIndex]? = some method := by
  obtain ⟨methods, empty⟩ := link_interface isInterface
  have listed := mem_filter.mpr ⟨mem, isVirtual⟩
  obtain ⟨rank, found⟩ := mem_iff_getElem?.mp listed
  have place : method.methodTableIndex = 0 + rank := by
    rw [methods, declaredMethods, empty] at found
    exact prepareMethods_interface found
  rw [place, Nat.zero_add]
  exact found

theorem offset_slot (listed : entry ∈ (hier.placedInterfaces self).2)
    (same : entry.interface = interface) :
    ∃ index, entry.offsets[method.methodTableIndex]? = some index ∧
      Slot (hier.realTable self) (hier.placedInterfaces self).1 method.signature
        index := by
  have offsets := (placedInterfaces_cached hier self).2 entry listed
  rw [same] at offsets
  have rank := interface_rank isInterface mem isVirtual
  obtain ⟨bound, value⟩ := List.getElem?_eq_some_iff.mp rank
  have bound' := offsets.length_eq ▸ bound
  have slot := List.Forall₂.get offsets bound bound'
  refine ⟨_, getElem?_eq_getElem bound', ?_⟩
  rw [get_eq_getElem, get_eq_getElem, value] at slot
  exact slot

end

structure Answers (hier : Hierarchy) (sig : Utf8 × Utf8) (target : Nat)
    (entry : MethodBlock) : Prop where
  same : entry.signature = sig
  nearest : entry.origin = .declared → Nearest hier sig target entry.ref
  miranda : entry.origin ≠ .declared → ∀ method, ¬ DeclaresIn hier sig target method

section
variable (isClass : (hier.file self).isInterface = false)
  (visible : PublicInterfaces hier sig self) (nested : Nested hier sig self)
include isClass in
theorem methodTable_miranda {index : Nat} {entry : MethodBlock}
    (found : (hier.realTable self)[index]? = some entry)
    (same : entry.signature = sig) (other : entry.origin ≠ .declared) :
    ∃ entry', (hier.link self).methodTable[index]? = some entry' ∧
      entry'.signature = sig ∧ entry'.origin ≠ .declared := by
  rw [(link_class isClass).2.1]
  obtain ⟨entry', present, rfl | ⟨_, _, _, _, _, agree, rfl⟩⟩ :=
    installed_entry (placedInterfaces_cached hier self).1 found self _
  · exact ⟨entry', present, same, other⟩
  · exact ⟨_, present, agree.symm.trans same, mirandaBlock_origin _ _ _⟩

include isClass visible nested in
theorem answers_new {index : Nat}
    (slot : Slot (hier.realTable self) (hier.placedInterfaces self).1 sig index) :
    ∃ entry, (hier.link self).methodTable[index]? = some entry ∧
      Answers hier sig self entry := by
  have lined := lined_link isClass visible nested
  have sole := soleMirandas_superTable visible
  have cached := (placedInterfaces_cached hier self).1
  -- A declaration in the class or above it is in the table before the Mirandas.
  have present {method : MethodRef} (declares : DeclaresIn hier sig self method) :
      ∃ entry index', (hier.realTable self)[index']? = some entry ∧
        entry.origin = .declared ∧ entry.signature = sig ∧
        (hier.link self).methodTable[index']? = some entry ∧
        Nearest hier sig self entry.ref ∧
        ∀ (other : Nat) (entry' : MethodBlock), (hier.link self).methodTable[other]? = some entry' →
          entry'.signature = sig → other ≤ index' := by
    obtain ⟨nearest, found⟩ := nearest_exists declares
    obtain ⟨entry, index', place, ref, real, greatest⟩ := lined.last nearest found
    have same := signature_of_ref isClass (mem_of_getElem? place) real (ref ▸ found.declaresIn)
    have pre : (hier.realTable self)[index']? = some entry := by
      have place' := place
      rw [(link_class isClass).2.1] at place'
      rcases installed_cases cached place' with ⟨miranda, -, -, place, shape⟩ | ⟨kept, -⟩
      · exact absurd (shape ▸ real) (mirandaBlock_origin _ _ _)
      · exact kept
    exact ⟨entry, index', pre, real, same, place, ref ▸ found, greatest⟩
  rcases slot with ⟨entry, last⟩ | ⟨miranda, listed, same, here⟩
  · obtain ⟨found, same⟩ := lastEntry_some last
    by_cases real : entry.origin = .declared
    · have kept := methodTable_kept isClass found (by simp [real])
      have declares := declaresIn_entry isClass (mem_of_getElem? kept) real same
      obtain ⟨nearest, index', pre, -, same', -, isNearest, greatest⟩ := present declares
      have equal : index' = index := le_antisymm (lastEntry_max last pre same')
        (greatest index entry kept same)
      rw [equal, found] at pre
      cases pre
      exact ⟨entry, kept, same, fun _ => isNearest, fun other => absurd real other⟩
    · obtain ⟨entry', place, same', other⟩ := methodTable_miranda isClass found same real
      refine ⟨entry', place, same', fun real' => absurd real' other, ?_⟩
      intro _ method declares
      obtain ⟨nearest, index', pre, real', same'', -⟩ := present declares
      have equal := (realTable_sole sole).sole found pre real same same''
      rw [equal, found] at pre
      cases pre
      exact real real'
  · obtain ⟨place, found⟩ := installed_miranda cached self
      (hier.declaredMethods self).1.length listed
    rw [← (link_class isClass).2.1, here] at found
    refine ⟨_, found, same, fun real => absurd real (mirandaBlock_origin _ _ _), ?_⟩
    intro _ method declares
    obtain ⟨nearest, index', pre, real, same', -⟩ := present declares
    exact real_signature_ne sole (mem_of_getElem? pre) real listed same' same

include isClass visible nested in
theorem answers_inherited {super index : Nat} {entry : MethodBlock}
    (mem : super ∈ (hier.file self).super)
    (found : (hier.link super).methodTable[index]? = some entry)
    (answers : Answers hier sig super entry)
    (access : ∀ method, DeclaresIn hier sig self method → method.owner = self →
      hier.checkMethodAccess entry self = true) :
    ∃ entry', (hier.link self).methodTable[index]? = some entry' ∧
      Answers hier sig self entry' := by
  have isClass' := hier.super_class self super mem
  have linked := superTable_eq (linkedSuper_of_class isClass mem)
  have lined := lined_link isClass' (visible.above mem) (nested.above mem)
  by_cases here : ∃ method, DeclaresIn hier sig self method ∧ method.owner = self
  · obtain ⟨method, declares, owner⟩ := here
    obtain ⟨block, declared, isVirtual, ref, same⟩ := declares.block owner
    have place := index_of_nearest isClass visible nested mem lined declared isVirtual same
      found answers.same answers.nearest (access method declares owner)
    refine ⟨block, ?_, same, fun _ => ?_, ?_⟩
    · rw [← place]
      exact methodTable_declared isClass (indexed_superTable hier self) declared isVirtual
    · rw [ref]
      exact nearest_here declares owner
    · exact fun other => absurd (declaredMethods_owner declared).2.1 other
  · push Not at here
    have kept := methodTable_undeclared isClass here (linked ▸ found) answers.same
    by_cases real : entry.origin = .declared
    · refine ⟨entry, methodTable_kept isClass kept (by simp [real]), answers.same, fun _ => ?_,
        fun other => absurd real other⟩
      exact (nearest_super here mem).mpr (answers.nearest real)
    · obtain ⟨entry', place, same, other⟩ := methodTable_miranda isClass kept answers.same real
      refine ⟨entry', place, same, fun real' => absurd real' other, ?_⟩
      intro _ method declares
      exact answers.miranda real method ((declaresIn_super here mem).mp declares)

end

/-- A declaration below a class that implements the interface overrides the one that is
nearest there, if there is one. -/
def OverridesNearest (hier : Hierarchy) (sig : Utf8 × Utf8) (interface target : Nat) : Prop :=
  ∀ lower super upper, DeclaresIn hier sig target lower → super ∈ (hier.file lower.owner).super →
    SuperInterface hier interface super → Nearest hier sig super upper →
    DirectlyOverrides hier lower upper

theorem answers_link {method : MethodBlock} (visible : PublicInterfaces hier method.signature self)
    (mem : method ∈ (hier.link interface).methods) (isVirtual : method.isVirtual = true)
    (isClass : (hier.file self).isInterface = false) (nested : Nested hier method.signature self)
    (overrides : OverridesNearest hier method.signature interface self)
    (listed : entry ∈ (hier.link self).imethodTable) (same : entry.interface = interface) :
    ∃ index block, entry.offsets[method.methodTableIndex]? = some index ∧
      (hier.link self).methodTable[index]? = some block ∧
      Answers hier method.signature self block := by
  induction self using Nat.strong_induction_on with
  | _ self ih =>
    have implemented {test : Nat} (listed : entry ∈ (hier.link test).imethodTable) :
        SuperInterface hier interface test :=
      same ▸ mem_listed_iff.mp (mem_map_of_mem listed)
    have isInterface := (implemented listed).isInterface
    rw [(link_class isClass).2.2, mem_append] at listed
    rcases listed with inherited | new
    · cases linked : hier.linkedSuper self with
      | none =>
        rw [inheritedBlock, linked] at inherited
        cases inherited
      | some super =>
        rw [inheritedBlock, linked] at inherited
        obtain ⟨isClass', above⟩ := linkedSuper_class linked
        obtain ⟨index, block, offset, found, answers⟩ := ih super
          (linkedSuper_lt linked) (visible.above above) isClass' (nested.above above)
          (fun lower super upper declares => overrides lower super upper (declares.mono above))
          inherited
        -- The superclass implements the interface too, so a declaration overrides its entry.
        have access (own : MethodRef) (declares : DeclaresIn hier method.signature self own)
            (owner : own.owner = self) : hier.checkMethodAccess block self = true := by
          have present := mem_of_getElem? found
          by_cases real : block.origin = .declared
          · exact access_of_directlyOverrides above present real
              (overrides own super block.ref declares (owner ▸ above) (implemented inherited)
                (answers.nearest real)) owner
          · have isPublic := (soleMirandas_link (visible.above above) isClass').isPublic block
              present real answers.same
            simp [checkMethodAccess, checkMethodOrFieldAccess, isPublic]
        obtain ⟨block', found', answers'⟩ :=
          answers_inherited isClass visible nested above found answers access
        exact ⟨index, block', offset, found', answers'⟩
    · obtain ⟨index, offset, slot⟩ := offset_slot isInterface mem isVirtual new same
      obtain ⟨block, found, answers⟩ := answers_new isClass visible nested slot
      exact ⟨index, block, offset, found, answers⟩

theorem nested_of_overridable (overridable : ∀ super info subclass,
      Declares hier super info → SubClass hier super.owner subclass →
      hier.Overridable info super.owner subclass) :
    Nested hier sig self := by
  intro lower between upper declares declares' _ _ below strict direct
  obtain ⟨info, found, same⟩ := declares.declared
  obtain ⟨info', found', same'⟩ := declares'.declared
  obtain ⟨first, last, here, there, agree, -⟩ := direct.declared
  cases here.unique found
  exact ⟨below, strict, info', last, found', there, same'.trans (same.symm.trans agree),
    overridable upper last between.owner there below⟩

def implementedTwice : Hierarchy :=
  ofFiles [⟨"java/lang/Object".toList, 0, false, none, [], []⟩,
    ⟨"q/I".toList, 0, true, some 0, [], [shown true]⟩,
    ⟨"q/A".toList, 0, false, some 0, [1], [shown true]⟩,
    ⟨"p/B".toList, 0, false, some 2, [], [shown true]⟩] (by decide)

theorem implementedTwice_public (target : Nat) :
    ∀ method ∈ (implementedTwice.file target).methods, method.flags.isPublic = true := by
  match target with
  | 0 | 1 | 2 | 3 => decide
  | target + 4 =>
    intro method mem
    cases mem

def Misdirects (hier : Hierarchy) (self interface : Nat) (declaration : MethodRef) : Prop :=
  SuperInterface hier interface self ∧
  ∃ method ∈ (hier.link interface).methods, method.isVirtual = true ∧
    FirstPublic hier method.signature self declaration ∧
    ∃ entry ∈ (hier.link self).imethodTable, entry.interface = interface ∧
      ∃ block, hier.throughITable self entry method = some block ∧
        hier.lookupVirtualMethod self method = .ok block ∧ block.ref ≠ declaration

/-- The interface is added where the only entry with the signature is a package-private
method of another package, which the later public declaration cannot override. -/
def staleOffset : Hierarchy :=
  ofFiles [⟨"java/lang/Object".toList, 0, false, none, [], []⟩,
    ⟨"q/I".toList, 0, true, some 0, [], [shown true]⟩,
    ⟨"p/A".toList, 0, false, some 0, [], [shown false]⟩,
    ⟨"q/B".toList, 0, false, some 2, [1], []⟩,
    ⟨"q/C".toList, 0, false, some 3, [], [shown true]⟩] (by decide)

/-- The interface is added with a public declaration, and a later one back in the first
package takes the slot of the package-private method. -/
def crossedInterface : Hierarchy :=
  ofFiles [⟨"java/lang/Object".toList, 0, false, none, [], []⟩,
    ⟨"q/I".toList, 0, true, some 0, [], [shown true]⟩,
    ⟨"p/A".toList, 0, false, some 0, [], [shown false]⟩,
    ⟨"q/B".toList, 0, false, some 2, [1], [shown true]⟩,
    ⟨"p/C".toList, 0, false, some 3, [], [shown true]⟩] (by decide)

end Hierarchy

end JamVM.Class
