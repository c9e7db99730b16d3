import JamVM.Class.Override
import JamVM.Foundation.Selection

/-! # Default methods

The Miranda of a signature that no class declares is the result of a selection among
the superinterfaces that declare it, taken in the order of the interface table.
-/

namespace JamVM.Class

open List
open Selection (select selectAll)

def Origin.selection : Origin → Selection Nat
  | .declared => .none
  | .bridge target => .chosen target.owner
  | .conflict => .conflict

namespace Hierarchy

section
variable (hier : Hierarchy)

variable (sig : Utf8 × Utf8)

structure Candidate (method : MethodRef) (info : MethodInfo) : Prop where
  found : (hier.file method.owner).methods[method.position]? = some info
  isVirtual : info.isVirtual = true
  same : info.signature = sig

def declaration (iface : Nat) : Option MethodInfo :=
  (hier.file iface).methods.find? fun method => method.isVirtual && method.signature = sig

def declaresSignature (iface : Nat) : Bool := (hier.declaration sig iface).isSome

def abstractIn (iface : Nat) : Bool :=
  (hier.declaration sig iface).any fun method => method.flags.isAbstract

def extend (iface super : Nat) : Bool := hier.implements super iface

def candidates (self : Nat) : List Nat := (hier.listed self).filter (hier.declaresSignature sig)

end

variable {hier : Hierarchy} {sig : Utf8 × Utf8} {self : Nat}

variable {info : MethodInfo}

theorem Candidate.declaration (candidate : Candidate hier sig method info) :
    hier.declaration sig method.owner = some info := by
  have mem := mem_of_getElem? candidate.found
  cases search : hier.declaration sig method.owner with
  | none =>
    have absent := find?_eq_none.mp search info mem
    simp [candidate.isVirtual, candidate.same] at absent
  | some =>
    have holds := find?_some search
    simp only [Bool.and_eq_true, decide_eq_true_eq] at holds
    obtain ⟨place, found⟩ := mem_iff_getElem?.mp (mem_of_find?_eq_some search)
    have equal := position_unique hier found candidate.found (holds.2.trans candidate.same.symm)
    rw [equal, candidate.found] at found
    exact found.symm

theorem Candidate.eq_of_owner (candidate : Candidate hier sig first info)
    (candidate' : Candidate hier sig second info')
    (owner : first.owner = second.owner) : first = second := by
  have found := candidate.found
  rw [owner] at found
  have position := position_unique hier found candidate'.found
    (candidate.same.trans candidate'.same.symm)
  cases first
  cases second
  simp only at owner position
  rw [owner, position]

/-! ## The selection in progress -/

def Miranda.selection (miranda : Miranda) : Selection Nat :=
  if miranda.conflict then .conflict else .chosen miranda.method.owner

def tableSelection (table : List MethodBlock) (sig : Utf8 × Utf8) : Selection Nat :=
  match lastEntry table sig with
  | none => .none
  | some (entry, _) => entry.origin.selection

def cacheSelection (table : List MethodBlock) (cache : MirandaCache)
    (sig : Utf8 × Utf8) : Selection Nat :=
  match cache.mirandas.find? fun miranda => miranda.signature = sig with
  | some miranda => miranda.selection
  | none => tableSelection table sig

/-- The entries with the signature: at most one, a Miranda, which bridges to a candidate
with the same flags. -/
structure DefaultOnly (hier : Hierarchy) (sig : Utf8 × Utf8) (table : List MethodBlock) : Prop where
  miranda : ∀ entry ∈ table, entry.signature = sig → entry.origin ≠ .declared
  single : ∀ {index index' : Nat} {entry entry' : MethodBlock}, table[index]? = some entry →
    table[index']? = some entry' → entry.signature = sig →
    entry'.signature = sig → index = index'
  bridges : ∀ entry ∈ table, entry.signature = sig → ∀ target, entry.origin = .bridge target →
    ∃ info, Candidate hier sig target info ∧ entry.flags.isAbstract = info.flags.isAbstract

theorem Candidate.abstractIn (candidate : Candidate hier sig method info) :
    hier.abstractIn sig method.owner = info.flags.isAbstract := by
  simp [Hierarchy.abstractIn, candidate.declaration]

theorem Source.candidate (source : Source hier self method) :
    Candidate hier method.signature method.ref method.info := by
  obtain ⟨above, mem, isVirtual⟩ := source
  rw [(link_interface above.isInterface).1] at mem
  exact ⟨declaredMethods_found mem, isVirtual, rfl⟩

section
variable {table : List MethodBlock} {cache next : MirandaCache}

variable {miranda : Miranda} {method : MethodBlock}

theorem cacheSelection_mem (signatures : (cache.mirandas.map Miranda.signature).Nodup)
    (mem : miranda ∈ cache.mirandas) (same : miranda.signature = sig) :
    cacheSelection table cache sig = miranda.selection := by
  unfold cacheSelection
  cases search : cache.mirandas.find? fun miranda => decide (miranda.signature = sig) with
  | none =>
    have absent := find?_eq_none.mp search miranda mem
    simp [same] at absent
  | some =>
    have holds := find?_some search
    have equal := inj_on_of_nodup_map signatures (mem_of_find?_eq_some search) mem
      ((of_decide_eq_true holds).trans same.symm)
    rw [equal]

theorem cacheSelection_fresh (fresh : ∀ miranda ∈ cache.mirandas, miranda.signature ≠ sig) :
    cacheSelection table cache sig = tableSelection table sig := by
  unfold cacheSelection
  have search : cache.mirandas.find? (fun miranda => decide (miranda.signature = sig)) =
      none := find?_eq_none.mpr fun miranda mem => by simpa using fresh miranda mem
  rw [search]

theorem cacheSelection_congr (signatures : (cache.mirandas.map Miranda.signature).Nodup)
    (signatures' : (next.mirandas.map Miranda.signature).Nodup)
    (same : ∀ miranda, miranda.signature = sig →
      (miranda ∈ next.mirandas ↔ miranda ∈ cache.mirandas)) :
    cacheSelection table next sig = cacheSelection table cache sig := by
  by_cases cached : ∃ miranda ∈ cache.mirandas, miranda.signature = sig
  · obtain ⟨miranda, mem, agree⟩ := cached
    rw [cacheSelection_mem signatures mem agree,
      cacheSelection_mem signatures' ((same miranda agree).mpr mem) agree]
  · push Not at cached
    rw [cacheSelection_fresh cached, cacheSelection_fresh]
    intro miranda mem agree
    exact cached miranda ((same miranda agree).mp mem) agree

theorem tableSelection_entry (only : DefaultOnly hier sig table) {index : Nat}
    (found : table[index]? = some entry) (same : entry.signature = sig) :
    tableSelection table sig = entry.origin.selection := by
  unfold tableSelection
  cases search : lastEntry table sig with
  | none => exact absurd same (lastEntry_none search entry (mem_of_getElem? found))
  | some last =>
    obtain ⟨entry', index'⟩ := last
    obtain ⟨found', same'⟩ := lastEntry_some search
    have equal := only.single found' found same' same
    rw [equal, found] at found'
    cases found'
    rfl

theorem tableSelection_absent (absent : ∀ entry ∈ table, entry.signature ≠ sig) :
    tableSelection table sig = .none := by
  unfold tableSelection
  cases search : lastEntry table sig with
  | none => rfl
  | some =>
    obtain ⟨found, same⟩ := lastEntry_some search
    exact absurd same (absent _ (mem_of_getElem? found))

theorem select_chooseDefault (chosen iface : Nat) :
    select hier.extend (hier.abstractIn sig) (.chosen chosen) iface =
      match hier.chooseDefault chosen (hier.abstractIn sig chosen) iface
        (hier.abstractIn sig iface) with
      | .keep => .chosen chosen
      | .replace => .chosen iface
      | .conflict => .conflict := by
  unfold select chooseDefault extend
  simp only
  split
  · rfl
  · split <;> rfl

theorem merge_selection (weak : miranda.method.flags.isAbstract =
      hier.abstractIn sig miranda.method.owner)
    (weak' : method.flags.isAbstract = hier.abstractIn sig method.owner) :
    (miranda.merge hier method.owner method).selection =
      select hier.extend (hier.abstractIn sig) miranda.selection
        method.owner := by
  unfold Miranda.merge Miranda.selection
  by_cases conflict : miranda.conflict = true
  · simp [conflict, select]
  · rw [if_neg conflict, if_neg conflict, select_chooseDefault, weak, weak']
    cases hier.chooseDefault miranda.method.owner
      (hier.abstractIn sig miranda.method.owner) method.owner
      (hier.abstractIn sig method.owner) <;> simp [conflict]

theorem placeMiranda_mem (other : miranda.signature ≠ method.signature) :
    miranda ∈ (hier.placeMiranda tableSize iface method inherited cache).1.mirandas ↔
      miranda ∈ cache.mirandas := by
  have added {new : Miranda} (same : new.signature = method.signature) :
      miranda ∈ (cache.add new).mirandas ↔ miranda ∈ cache.mirandas := by
    have apart : miranda ≠ new := fun equal => other (equal ▸ same)
    simp [MirandaCache.add, apart]
  unfold placeMiranda
  split
  · rename_i old position search
    obtain ⟨found, same⟩ := cached_some search
    have merged := (merge_keeps hier iface old same).1
    constructor
    · intro mem
      rcases mem_or_eq_of_mem_set mem with listed | equal
      · exact listed
      · exact absurd (equal ▸ merged.trans same.symm) other
    · intro mem
      obtain ⟨place, here⟩ := mem_iff_getElem?.mp mem
      have apart : position ≠ place := by
        intro equal
        rw [← equal, found] at here
        cases here
        exact other same.symm
      apply mem_of_getElem? (i := place)
      rw [getElem?_set_ne apart]
      exact here
  · split
    · split
      · rfl
      · exact added rfl
      · exact added rfl
    · exact added rfl

variable {source : MethodBlock → Prop}

theorem placeMethod_other (iface : Nat) (cached : Cached table source cache) (known : source method)
    (other : method.signature ≠ sig) :
    cacheSelection table (hier.placeMethod table iface method cache).1 sig =
      cacheSelection table cache sig := by
  have next := (placeMethod_cached hier iface cached known).1
  apply cacheSelection_congr cached.signatures next.signatures
  intro miranda same
  have apart : miranda.signature ≠ method.signature := fun equal => other (equal ▸ same)
  unfold placeMethod
  split
  · split
    · rfl
    · rfl
    · exact placeMiranda_mem apart
  · exact placeMiranda_mem apart

section
variable (only : DefaultOnly hier method.signature table)
  (cached : Cached table (Source hier self) cache) (known : Source hier self method)
include only cached known

theorem placeMiranda_selection (inherits : Inherits table method.signature inherited) :
    cacheSelection table (hier.placeMiranda table.length method.owner method inherited
        cache).1 method.signature =
      select hier.extend (hier.abstractIn method.signature)
        (cacheSelection table cache method.signature) method.owner := by
  have next := (placeMiranda_cached hier method.owner cached known inherits).1
  have weak : method.flags.isAbstract =
      hier.abstractIn method.signature method.owner := known.candidate.abstractIn.symm
  revert next
  unfold placeMiranda
  split
  · rename_i old position search
    intro next
    obtain ⟨found, same⟩ := cached_some search
    have mem := mem_of_getElem? found
    have merged := (merge_keeps hier method.owner old same).1
    have placed : old.merge hier method.owner method ∈
        cache.mirandas.set position (old.merge hier method.owner method) :=
      List.mem_set (List.getElem?_eq_some_iff.mp found).1 _
    rw [cacheSelection_mem next.signatures placed (merged.trans same.symm),
      cacheSelection_mem cached.signatures mem same.symm]
    apply merge_selection _ weak
    have candidate := (cached.sources old mem).candidate
    have same' : old.method.signature = method.signature := same.symm
    rw [same'] at candidate
    exact candidate.abstractIn.symm
  · rename_i search
    have fresh := cached_none search
    rw [cacheSelection_fresh fresh]
    cases inherited with
    | none =>
      intro next
      rw [tableSelection_absent inherits]
      exact cacheSelection_mem next.signatures (mem_append_right _ (mem_singleton_self _)) rfl
    | some inherited =>
      obtain ⟨entry, position, last, bridge, flags⟩ := inherits
      obtain ⟨found, same⟩ := lastEntry_some last
      obtain ⟨info, candidate, agree⟩ := only.bridges entry (mem_of_getElem? found) same _ bridge
      have weak' : inherited.isAbstract = hier.abstractIn method.signature inherited.chosen := by
        rw [← flags, agree]
        exact candidate.abstractIn.symm
      have pre : tableSelection table method.signature = .chosen inherited.chosen := by
        rw [tableSelection_entry only found same, bridge]
        rfl
      rw [pre, select_chooseDefault, ← weak, ← weak']
      simp only
      cases hier.chooseDefault inherited.chosen inherited.isAbstract method.owner
          method.flags.isAbstract with
      | keep =>
        intro next
        simp only
        rw [cacheSelection_fresh fresh, pre]
      | replace | conflict =>
        intro next
        exact cacheSelection_mem next.signatures (mem_append_right _ (mem_singleton_self _)) rfl

theorem placeMethod_selection :
    cacheSelection table (hier.placeMethod table method.owner method cache).1 method.signature =
      select hier.extend (hier.abstractIn method.signature)
        (cacheSelection table cache method.signature) method.owner := by
  unfold placeMethod
  cases search : lastEntry table method.signature with
  | none => exact placeMiranda_selection only cached known (lastEntry_none search)
  | some last =>
    obtain ⟨entry, index⟩ := last
    obtain ⟨found, same⟩ := lastEntry_some search
    have mem := mem_of_getElem? found
    cases origin : entry.origin with
    | declared => exact absurd origin (only.miranda entry mem same)
    | bridge target =>
      simp only [origin]
      exact placeMiranda_selection only cached known ⟨entry, target.position, search, origin, rfl⟩
    | conflict =>
      simp only [origin]
      -- The cache has no Miranda for a signature that is in conflict.
      have fresh : ∀ miranda ∈ cache.mirandas, miranda.signature ≠ method.signature := by
        intro miranda listed agree
        rcases cached.placed miranda listed with
          ⟨old, target, place, bridge, agree'⟩ | ⟨absent, -⟩
        · have equal := only.single place found (agree'.trans agree) same
          rw [equal, found] at place
          cases place
          rw [origin] at bridge
          cases bridge
        · exact absent entry mem (same.trans agree.symm)
      rw [cacheSelection_fresh fresh, tableSelection_entry only found same, origin]
      rfl

end

theorem placeMethods_selection (only : DefaultOnly hier sig table)
    (cached : Cached table (Source hier self) cache)
    (known : ∀ method ∈ methods, method.isVirtual = true →
      Source hier self method ∧ method.owner = iface)
    (distinct : methods.Pairwise fun first second => first.signature ≠ second.signature) :
    cacheSelection table (hier.placeMethods table iface methods cache).1 sig =
      if methods.any (fun method => method.isVirtual && method.signature = sig) then
        select hier.extend (hier.abstractIn sig) (cacheSelection table cache sig) iface
      else cacheSelection table cache sig := by
  induction methods generalizing cache with
  | nil => rfl
  | cons method rest ih =>
    obtain ⟨apart, distinct'⟩ := pairwise_cons.mp distinct
    have later : ∀ method ∈ rest, method.isVirtual = true →
        Source hier self method ∧ method.owner = iface :=
      fun other mem => known other (mem_cons_of_mem _ mem)
    rw [placeMethods, any_cons]
    by_cases isVirtual : method.isVirtual = true
    · obtain ⟨source, owner⟩ := known method (mem_cons_self ..) isVirtual
      have next := (placeMethod_cached hier iface cached source).1
      simp only [isVirtual, if_true, Bool.true_and]
      rw [ih next later distinct']
      by_cases same : method.signature = sig
      · -- No other method of the interface has the signature.
        have none : rest.any (fun method => method.isVirtual &&
            decide (method.signature = sig)) = false := by
          simp only [any_eq_false, Bool.and_eq_true, decide_eq_true_eq, not_and]
          intro other mem _ same'
          exact apart other mem (same.trans same'.symm)
        subst same
        subst owner
        simp only [none, Bool.false_eq_true, if_false, decide_true, Bool.true_or, if_true]
        exact placeMethod_selection only cached source
      · simp only [same, decide_false, Bool.false_or]
        rw [placeMethod_other iface cached source same]
    · simp only [isVirtual, Bool.false_eq_true, if_false, Bool.false_and, Bool.false_or]
      exact ih cached later distinct'

theorem placeInterfaces_selection (only : DefaultOnly hier sig table)
    (cached : Cached table (Source hier self) cache)
    (known : ∀ iface ∈ interfaces, SuperInterface hier iface self) :
    cacheSelection table (hier.placeInterfaces hier.link table interfaces cache).1 sig =
      (interfaces.filter (hier.declaresSignature sig)).foldl
        (select hier.extend (hier.abstractIn sig))
        (cacheSelection table cache sig) := by
  induction interfaces generalizing cache with
  | nil => rfl
  | cons iface rest ih =>
    have above := known iface (mem_cons_self ..)
    have methods := (link_interface above.isInterface).1
    have distinct : (hier.link iface).methods.Pairwise fun first second =>
        first.signature ≠ second.signature := by
      have pairwise := hier.distinct iface
      rw [← map_info_declaredMethods, pairwise_map] at pairwise
      rw [methods]
      exact pairwise.imp fun differ same => differ (Prod.mk.inj same)
    have declares : (hier.link iface).methods.any (fun method =>
        method.isVirtual && decide (method.signature = sig)) =
          hier.declaresSignature sig iface := by
      rw [methods, declaresSignature, declaration, ← map_info_declaredMethods, isSome_find?,
        any_map]
      rfl
    have next := (placeMethods_cached hier iface cached
      fun method mem isVirtual => (source_of_link above mem isVirtual).1).1
    rw [placeInterfaces]
    simp only
    rw [ih next fun other mem => known other (mem_cons_of_mem _ mem),
      placeMethods_selection only cached (fun _ => source_of_link above) distinct, declares,
      filter_cons]
    split <;> rfl

end

/-! ## The selection of a class -/

def Undeclared (hier : Hierarchy) (sig : Utf8 × Utf8) (self : Nat) : Prop :=
  ∀ test, SubClass hier test self → ∀ info ∈ (hier.file test).methods,
    info.isVirtual = true → info.signature ≠ sig

theorem realTable_undeclared (undeclared : Undeclared hier sig self) {index : Nat}
    (same : entry.signature = sig) :
    (hier.realTable self)[index]? = some entry ↔ (hier.superTable self)[index]? = some entry := by
  have indexed := indexed_superTable hier self
  have other {own : MethodBlock} (mem : own ∈ (hier.declaredMethods self).1)
      (isVirtual : own.isVirtual = true) : own.signature ≠ sig := by
    exact undeclared self .refl own.info (mem_of_getElem? (declaredMethods_found mem)) isVirtual
  constructor
  · intro found
    rcases declaredTable_cases indexed (hier.distinct self) found with
      ⟨mem, isVirtual, -⟩ | ⟨kept, -⟩
    · exact absurd same (other mem isVirtual)
    · exact kept
  · intro found
    apply realTable_inherited indexed found
    intro own declared isVirtual place
    exact other declared isVirtual
      ((declaredMethods_slot declared isVirtual (place ▸ found)).1.trans same)

theorem realTable_default (undeclared : Undeclared hier sig self)
    (only : DefaultOnly hier sig (hier.superTable self)) :
    DefaultOnly hier sig (hier.realTable self) ∧ tableSelection (hier.realTable self) sig =
        tableSelection (hier.superTable self) sig := by
  have inherited {entry : MethodBlock} (mem : entry ∈ hier.realTable self)
      (same : entry.signature = sig) : entry ∈ hier.superTable self := by
    obtain ⟨index, found⟩ := mem_iff_getElem?.mp mem
    exact mem_of_getElem? ((realTable_undeclared undeclared same).mp found)
  have real : DefaultOnly hier sig (hier.realTable self) := by
    constructor
    · intro entry mem same
      exact only.miranda entry (inherited mem same) same
    · intro index index' entry entry' found found' same same'
      exact only.single ((realTable_undeclared undeclared same).mp found)
        ((realTable_undeclared undeclared same').mp found') same same'
    · intro entry mem same
      exact only.bridges entry (inherited mem same) same
  refine ⟨real, ?_⟩
  by_cases present : ∃ entry ∈ hier.superTable self, entry.signature = sig
  · obtain ⟨entry, mem, same⟩ := present
    obtain ⟨index, found⟩ := mem_iff_getElem?.mp mem
    rw [tableSelection_entry only found same,
      tableSelection_entry real ((realTable_undeclared undeclared same).mpr found) same]
  · push Not at present
    rw [tableSelection_absent present, tableSelection_absent]
    intro entry mem same
    exact present entry (inherited mem same) same

theorem methodTable_default (isClass : (hier.file self).isInterface = false)
    (only : DefaultOnly hier sig (hier.realTable self)) :
    DefaultOnly hier sig (hier.link self).methodTable ∧
      tableSelection (hier.link self).methodTable sig =
        cacheSelection (hier.realTable self) (hier.placedInterfaces self).1 sig := by
  have cached := (placedInterfaces_cached hier self).1
  rw [(link_class isClass).2.1]
  have origin {index : Nat} {entry : MethodBlock} (found : (installed (hier.realTable self) self
        (hier.declaredMethods self).1.length (hier.placedInterfaces self).1)[index]? = some entry)
      (same : entry.signature = sig) : entry.origin ≠ .declared := by
    rcases installed_cases cached found with ⟨miranda, -, -, place, rfl⟩ | ⟨kept, -⟩
    · exact mirandaBlock_origin _ _ _
    · exact only.miranda entry (mem_of_getElem? kept) same
  have new : DefaultOnly hier sig (installed (hier.realTable self) self
      (hier.declaredMethods self).1.length (hier.placedInterfaces self).1) := by
    constructor
    · intro entry mem same
      obtain ⟨index, found⟩ := mem_iff_getElem?.mp mem
      exact origin found same
    · intro index index' entry entry' found found' same same'
      exact (installed_sole cached (fun first second _ agree agree' =>
        (only.single first second agree agree').symm) found found' (origin found same) same
        same').symm
    · intro entry mem same target bridge
      obtain ⟨index, found⟩ := mem_iff_getElem?.mp mem
      rcases installed_cases cached found with ⟨miranda, listed, -, place, rfl⟩ | ⟨kept, -⟩
      · have candidate := (cached.sources miranda listed).candidate
        have agree : miranda.method.signature = sig := same
        rw [agree] at candidate
        have target' : target = miranda.method.ref := by
          unfold mirandaBlock at bridge
          simp only at bridge
          split at bridge
          · cases bridge
          · exact (Origin.bridge.inj bridge).symm
        rw [target']
        exact ⟨miranda.method.info, candidate, rfl⟩
      · exact only.bridges entry (mem_of_getElem? kept) same target bridge
  refine ⟨new, ?_⟩
  by_cases present : ∃ miranda ∈ (hier.placedInterfaces self).1.mirandas, miranda.signature = sig
  · obtain ⟨miranda, listed, same⟩ := present
    obtain ⟨place, found⟩ := installed_miranda cached self
      (hier.declaredMethods self).1.length listed
    rw [cacheSelection_mem cached.signatures listed same, tableSelection_entry new found same]
    unfold mirandaBlock Miranda.selection
    simp only
    split <;> rfl
  · push Not at present
    rw [cacheSelection_fresh present]
    by_cases kept : ∃ entry ∈ hier.realTable self, entry.signature = sig
    · obtain ⟨entry, mem, same⟩ := kept
      obtain ⟨index, found⟩ := mem_iff_getElem?.mp mem
      obtain ⟨entry', here, rfl | ⟨miranda, listed, _, _, _, agree, _⟩⟩ :=
        installed_entry cached found self _
      · rw [tableSelection_entry only found same, tableSelection_entry new here same]
      · exact absurd (agree.symm.trans same) (present miranda listed)
    · push Not at kept
      rw [tableSelection_absent kept, tableSelection_absent]
      intro entry mem same
      obtain ⟨index, found⟩ := mem_iff_getElem?.mp mem
      rcases installed_cases cached found with ⟨miranda, listed, -, place, rfl⟩ | ⟨stays, -⟩
      · exact present miranda listed same
      · exact kept entry (mem_of_getElem? stays) same

variable (hier) in
def superListed (self : Nat) : List Nat :=
  match hier.linkedSuper self with
  | some super => hier.listed super
  | none => []

theorem default_link (isClass : (hier.file self).isInterface = false)
    (undeclared : Undeclared hier sig self) :
    DefaultOnly hier sig (hier.link self).methodTable ∧
      tableSelection (hier.link self).methodTable sig =
        selectAll hier.extend (hier.abstractIn sig) (hier.candidates sig self) := by
  induction self using Nat.strong_induction_on with
  | _ self ih =>
    have inherited : DefaultOnly hier sig (hier.superTable self) ∧
        tableSelection (hier.superTable self) sig = selectAll hier.extend (hier.abstractIn sig)
            ((hier.superListed self).filter (hier.declaresSignature sig)) := by
      unfold superListed
      cases linked : hier.linkedSuper self with
      | none =>
        rw [superTable_none linked]
        refine ⟨⟨?_, ?_, ?_⟩, rfl⟩ <;> simp
      | some super =>
        rw [superTable_eq linked]
        obtain ⟨isClass', above⟩ := linkedSuper_class linked
        exact ih super (linkedSuper_lt linked) isClass'
          fun test below => undeclared test (.inherits above below)
    obtain ⟨only, pre⟩ := realTable_default undeclared inherited.1
    obtain ⟨new, post⟩ := methodTable_default isClass only
    refine ⟨new, ?_⟩
    have above : ∀ iface ∈ hier.newInterfaces hier.link self,
        SuperInterface hier iface self := by
      intro iface added
      rw [← mem_listed_iff, listed, link_eq, linkClass_interfaces]
      exact mem_append_right _ added
    have start : cacheSelection (hier.realTable self) ⟨[], 0⟩ sig =
        tableSelection (hier.realTable self) sig := cacheSelection_fresh (by simp)
    rw [post, placedInterfaces, placeInterfaces_selection only (cached_empty _ _) above, start,
      pre, inherited.2, candidates, listed_eq, filter_append, selectAll,
      selectAll, foldl_append]
    rfl

end Hierarchy

end JamVM.Class
