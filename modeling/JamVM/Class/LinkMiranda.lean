import JamVM.Class.LinkTable
import Mathlib.Data.List.Nodup

/-! # Miranda methods

What the loop over the new interfaces of a class leaves in the Miranda cache, and
the method table after the Mirandas are installed.
-/

namespace JamVM.Class.Hierarchy

open List

def Miranda.signature (miranda : Miranda) : Utf8 × Utf8 := miranda.method.signature

variable {hier : Hierarchy}

theorem lastEntry_some (found : lastEntry table sig = some (entry, index)) :
    table[index]? = some entry ∧ entry.signature = sig := by
  have mem := mem_reverse.mp (mem_of_find?_eq_some found)
  have same := find?_some found
  exact ⟨by simpa using mem_zipIdx_iff_getElem?.mp mem, (of_decide_eq_true same).symm⟩

theorem lastEntry_none (missing : lastEntry table sig = none) :
    ∀ entry ∈ table, entry.signature ≠ sig := by
  intro entry mem same
  obtain ⟨index, found⟩ := mem_iff_getElem?.mp mem
  have absent := find?_eq_none.mp missing (entry, index)
    (mem_reverse.mpr (mem_zipIdx_iff_getElem?.mpr found))
  simp [same] at absent

theorem lastEntry_concat (table : List MethodBlock) (last : MethodBlock) :
    lastEntry (table ++ [last]) sig =
      if sig = last.signature then some (last, table.length)
      else lastEntry table sig := by
  unfold lastEntry
  rw [zipIdx_append, reverse_append]
  by_cases same : sig = last.signature
  · simp [same]
  · simp [same]

theorem lastEntry_max (found : lastEntry table sig = some (entry, index))
    (found' : table[index']? = some entry') (same : entry'.signature = sig) :
    index' ≤ index := by
  induction table using reverseRecOn with
  | nil => simp at found'
  | append_singleton table last ih =>
    rw [lastEntry_concat] at found
    have bound := (List.getElem?_eq_some_iff.mp found').1
    rw [List.length_append, List.length_singleton] at bound
    split at found
    · cases found
      omega
    · rename_i other
      apply ih found
      by_cases inside : index' < table.length
      · rwa [getElem?_append_left inside] at found'
      · have equal : index' = table.length := by omega
        subst equal
        simp only [getElem?_concat_length, Option.some.injEq] at found'
        subst found'
        exact absurd same.symm other

/-! ## The cache -/

/-- A Miranda replaces one of the method table, or it is the first entry with its
signature and has a new index. -/
def Placed (table : List MethodBlock) (newSlots : Nat) (miranda : Miranda) : Prop :=
  (∃ entry target, table[miranda.index]? = some entry ∧ entry.origin = .bridge target ∧
    entry.signature = miranda.signature) ∨
  (∀ entry ∈ table, entry.signature ≠ miranda.signature) ∧
    table.length ≤ miranda.index ∧ miranda.index < table.length + newSlots

structure Cached (table : List MethodBlock) (source : MethodBlock → Prop)
    (cache : MirandaCache) : Prop where
  signatures : (cache.mirandas.map Miranda.signature).Nodup
  indices : (cache.mirandas.map Miranda.index).Nodup
  placed : ∀ miranda ∈ cache.mirandas, Placed table cache.newSlots miranda
  sources : ∀ miranda ∈ cache.mirandas, source miranda.method
  covers : ∀ index, table.length ≤ index → index < table.length + cache.newSlots →
    ∃ miranda ∈ cache.mirandas, miranda.index = index

def Slot (table : List MethodBlock) (cache : MirandaCache) (sig : Utf8 × Utf8)
    (index : Nat) : Prop :=
  (∃ entry, lastEntry table sig = some (entry, index)) ∨
    ∃ miranda ∈ cache.mirandas, miranda.signature = sig ∧ miranda.index = index

def Grows (cache next : MirandaCache) : Prop :=
  ∀ miranda ∈ cache.mirandas, ∃ later ∈ next.mirandas,
    later.signature = miranda.signature ∧ later.index = miranda.index

theorem Grows.refl (cache : MirandaCache) : Grows cache cache :=
  fun miranda mem => ⟨miranda, mem, rfl, rfl⟩

theorem Grows.trans (grows : Grows first second)
    (grows' : Grows second third) : Grows first third := by
  intro miranda mem
  obtain ⟨middle, mem, sig, index⟩ := grows miranda mem
  obtain ⟨last, mem, signature', index'⟩ := grows' middle mem
  exact ⟨last, mem, signature'.trans sig, index'.trans index⟩

theorem Slot.mono (slot : Slot table cache sig index) (grows : Grows cache post) :
    Slot table post sig index := by
  rcases slot with present | ⟨miranda, mem, same, pos⟩
  · exact .inl present
  · obtain ⟨later, mem, same', position'⟩ := grows miranda mem
    exact .inr ⟨later, mem, same'.trans same, position'.trans pos⟩

theorem Placed.mono (placed : Placed table newSlots miranda) (le : newSlots ≤ more) :
    Placed table more miranda := by
  rcases placed with replaced | ⟨absent, lower, upper⟩
  · exact .inl replaced
  · exact .inr ⟨absent, lower, by omega⟩

section
variable {source : MethodBlock → Prop} {interface : Nat} {method : MethodBlock}

theorem merge_keeps (hier : Hierarchy) (interface : Nat) (miranda : Miranda)
    (same : method.signature = miranda.signature) :
    (miranda.merge hier interface method).signature = miranda.signature ∧
      (miranda.merge hier interface method).index = miranda.index := by
  unfold Miranda.merge
  split
  · exact ⟨rfl, rfl⟩
  · split
    · exact ⟨rfl, rfl⟩
    · exact ⟨same, rfl⟩
    · exact ⟨rfl, rfl⟩

variable {miranda : Miranda}

theorem merge_source (known : source miranda.method)
    (added : source method) : source (miranda.merge hier interface method).method := by
  unfold Miranda.merge
  split
  · exact known
  · split
    · exact known
    · exact added
    · exact known

theorem map_set_same {α : Type u} {β : Type v} (image : α → β) {items : List α} {old new : α}
    (found : items[pos]? = some old) (same : image new = image old) :
    (items.set pos new).map image = items.map image := by
  apply ext_getElem?
  intro other
  rw [getElem?_map, getElem?_map, getElem?_set]
  split
  · rename_i equal
    subst equal
    have bound := (List.getElem?_eq_some_iff.mp found).1
    simp only [bound, if_true, found, Option.map_some, same]
  · rfl

theorem Cached.update (cached : Cached table source cache) (found : cache.mirandas[pos]? = some old)
    (sig : new.signature = old.signature) (index : new.index = old.index)
    (known : source new.method) :
    Cached table source { cache with mirandas := cache.mirandas.set pos new } where
  signatures := by
    rw [map_set_same Miranda.signature found sig]
    exact cached.signatures
  indices := by
    rw [map_set_same Miranda.index found index]
    exact cached.indices
  placed miranda mem := by
    rcases mem_or_eq_of_mem_set mem with mem | rfl
    · exact cached.placed miranda mem
    · have placed := cached.placed old (mem_of_getElem? found)
      unfold Placed at placed ⊢
      rw [sig, index]
      exact placed
  sources miranda mem := by
    rcases mem_or_eq_of_mem_set mem with mem | rfl
    · exact cached.sources miranda mem
    · exact known
  covers pos lower upper := by
    obtain ⟨miranda, mem, same⟩ := cached.covers pos lower upper
    have images := map_set_same Miranda.index found index
    have listed : pos ∈ (cache.mirandas.set _ new).map Miranda.index :=
      images ▸ mem_map.mpr ⟨miranda, mem, same⟩
    exact mem_map.mp listed

theorem grows_update (found : cache.mirandas[pos]? = some old)
    (sig : new.signature = old.signature) (index : new.index = old.index) :
    Grows cache { cache with mirandas := cache.mirandas.set pos new } := by
  intro miranda mem
  obtain ⟨other, present⟩ := mem_iff_getElem?.mp mem
  obtain rfl | same := eq_or_ne pos other
  · rw [found] at present
    cases present
    have bound := (List.getElem?_eq_some_iff.mp found).1
    exact ⟨new, mem_of_getElem? (List.getElem?_set_self bound), sig, index⟩
  · have kept : (cache.mirandas.set pos new)[other]? = some miranda := by
      rw [getElem?_set_ne same]
      exact present
    exact ⟨miranda, mem_of_getElem? kept, rfl, rfl⟩

theorem grows_add (miranda : Miranda) (newSlots : Nat) :
    Grows cache { cache.add miranda with newSlots := newSlots } :=
  fun old mem => ⟨old, mem_append_left _ mem, rfl, rfl⟩

theorem nodup_add {cache : MirandaCache} {Key : Type} {key : Miranda → Key}
    (nodup : (cache.mirandas.map key).Nodup)
    (fresh : ∀ other ∈ cache.mirandas, key other ≠ key miranda) :
    ((cache.add miranda).mirandas.map key).Nodup := by
  rw [MirandaCache.add, map_append]
  refine nodup_append.mpr ⟨nodup, by simp, ?_⟩
  intro first mem second member'
  obtain ⟨other, listed, rfl⟩ := mem_map.mp mem
  cases mem_singleton.mp member'
  exact fresh other listed

section
variable (cached : Cached table source cache)
include cached

theorem Cached.append (more : cache.newSlots ≤ newSlots)
    (sig : ∀ other ∈ cache.mirandas, other.signature ≠ miranda.signature)
    (index : ∀ other ∈ cache.mirandas, other.index ≠ miranda.index)
    (placed : Placed table newSlots miranda) (known : source miranda.method)
    (covered : ∀ pos, table.length + cache.newSlots ≤ pos →
      pos < table.length + newSlots → miranda.index = pos) :
    Cached table source { cache.add miranda with newSlots := newSlots } where
  signatures := nodup_add cached.signatures sig
  indices := nodup_add cached.indices index
  placed other mem := by
    rcases mem_append.mp mem with mem | mem
    · exact (cached.placed other mem).mono more
    · cases mem_singleton.mp mem
      exact placed
  sources other mem := by
    rcases mem_append.mp mem with mem | mem
    · exact cached.sources other mem
    · cases mem_singleton.mp mem
      exact known
  covers pos lower upper := by
    by_cases old : pos < table.length + cache.newSlots
    · obtain ⟨other, mem, same⟩ := cached.covers pos lower old
      exact ⟨other, mem_append_left _ mem, same⟩
    · exact ⟨miranda, mem_append_right _ (mem_singleton_self _),
        covered pos (by omega) upper⟩

theorem Cached.override (sig : ∀ other ∈ cache.mirandas, other.signature ≠ miranda.signature)
    (found : table[miranda.index]? = some entry) (bridge : entry.origin = .bridge target)
    (same : entry.signature = miranda.signature)
    (known : source miranda.method) : Cached table source (cache.add miranda) := by
  have bound := (List.getElem?_eq_some_iff.mp found).1
  apply cached.append (Nat.le_refl _) sig _ (.inl ⟨entry, target, found, bridge, same⟩) known
  · intro pos lower upper
    omega
  · intro other mem equal
    rcases cached.placed other mem with ⟨entry', _, found', -, same'⟩ | ⟨-, lower, -⟩
    · rw [equal, found] at found'
      cases found'
      exact sig other mem (same'.symm.trans same)
    · omega

theorem Cached.extend (sig : ∀ other ∈ cache.mirandas, other.signature ≠ method.signature)
    (absent : ∀ entry ∈ table, entry.signature ≠ method.signature) (known : source method) :
    Cached table source { cache.add ⟨method, table.length + cache.newSlots, false⟩ with
        newSlots := cache.newSlots + 1 } := by
  have placed : Placed table (cache.newSlots + 1) ⟨method, table.length + cache.newSlots, false⟩ :=
    .inr ⟨absent, Nat.le_add_right .., Nat.lt_succ_self _⟩
  refine cached.append (Nat.le_succ _) sig ?_ placed known ?_
  · intro other mem equal
    have equal : other.index = table.length + cache.newSlots := equal
    rcases cached.placed other mem with ⟨entry', _, found', -⟩ | ⟨-, -, upper⟩
    · have bound := (List.getElem?_eq_some_iff.mp found').1
      omega
    · omega
  · intro pos lower upper
    show table.length + cache.newSlots = pos
    omega

end

def Inherits (table : List MethodBlock) (sig : Utf8 × Utf8) : Option InheritedMiranda → Prop
  | some inherited => ∃ entry pos, lastEntry table sig = some (entry, inherited.index) ∧
      entry.origin = .bridge ⟨inherited.chosen, pos⟩ ∧
      entry.flags.isAbstract = inherited.isAbstract
  | none => ∀ entry ∈ table, entry.signature ≠ sig

section
variable {mirandas : List Miranda}

theorem cached_some (search : (mirandas.zipIdx.find? fun cached =>
      sig = cached.1.method.signature) = some (miranda, pos)) :
    mirandas[pos]? = some miranda ∧ sig = miranda.signature := by
  have found := mem_zipIdx_iff_getElem?.mp (mem_of_find?_eq_some search)
  have holds := find?_some search
  exact ⟨by simpa using found, of_decide_eq_true holds⟩

theorem cached_none (search : (mirandas.zipIdx.find? fun cached =>
      sig = cached.1.method.signature) = none) :
    ∀ other ∈ mirandas, other.signature ≠ sig := by
  intro other mem same
  obtain ⟨pos, found⟩ := mem_iff_getElem?.mp mem
  have absent := find?_eq_none.mp search (other, pos) (mem_zipIdx_iff_getElem?.mpr found)
  exact absent (decide_eq_true same.symm)

end

theorem placeMiranda_cached (hier : Hierarchy) (interface : Nat)
    (cached : Cached table source cache) (known : source method)
    (inherits : Inherits table method.signature inherited) :
    let placed := hier.placeMiranda table.length interface method inherited cache
    Cached table source placed.1 ∧ Grows cache placed.1 ∧
      Slot table placed.1 method.signature placed.2 := by
  unfold placeMiranda
  split
  · rename_i miranda pos search
    obtain ⟨found, same⟩ := cached_some search
    obtain ⟨sig, index⟩ := merge_keeps hier interface miranda same
    refine ⟨cached.update found sig index ?_, grows_update found sig index, ?_⟩
    · exact merge_source (cached.sources miranda (mem_of_getElem? found)) known
    · have bound := (List.getElem?_eq_some_iff.mp found).1
      exact .inr ⟨_, mem_of_getElem? (List.getElem?_set_self bound), sig.trans same.symm, index⟩
  · rename_i search
    have fresh := cached_none search
    cases inherited with
    | some =>
      obtain ⟨entry, pos, last, bridge, -⟩ := inherits
      obtain ⟨found, same⟩ := lastEntry_some last
      simp only
      split
      · exact ⟨cached, .refl cache, .inl ⟨entry, last⟩⟩
      all_goals
        exact ⟨cached.override fresh found bridge same known, grows_add _ _, .inl ⟨entry, last⟩⟩
    | none =>
      exact ⟨cached.extend fresh inherits known, grows_add _ _,
        .inr ⟨_, mem_append_right _ (mem_singleton_self _), rfl, rfl⟩⟩

theorem placeMethod_cached (hier : Hierarchy) (interface : Nat)
    (cached : Cached table source cache) (known : source method) :
    let placed := hier.placeMethod table interface method cache
    Cached table source placed.1 ∧ Grows cache placed.1 ∧
      Slot table placed.1 method.signature placed.2 := by
  unfold placeMethod
  cases search : lastEntry table method.signature with
  | none => exact placeMiranda_cached hier interface cached known (lastEntry_none search)
  | some found =>
    obtain ⟨entry, index⟩ := found
    cases origin : entry.origin with
    | declared | conflict =>
      simp only [origin]
      exact ⟨cached, .refl cache, .inl ⟨entry, search⟩⟩
    | bridge target =>
      simp only [origin]
      exact placeMiranda_cached hier interface cached known
        ⟨entry, target.position, search, origin, rfl⟩

def Offsets (table : List MethodBlock) (cache : MirandaCache) (methods : List MethodBlock)
    (offsets : List Nat) : Prop :=
  Forall₂ (fun method index => Slot table cache method.signature index)
    (methods.filter MethodBlock.isVirtual) offsets

theorem Offsets.mono (leads : Offsets table cache methods offsets) (grows : Grows cache post) :
    Offsets table post methods offsets :=
  leads.imp fun _ _ slot => slot.mono grows

theorem placeMethods_cached (hier : Hierarchy) (interface : Nat)
    (cached : Cached table source cache)
    (known : ∀ method ∈ methods, method.isVirtual = true → source method) :
    let placed := hier.placeMethods table interface methods cache
    Cached table source placed.1 ∧ Grows cache placed.1 ∧
      Offsets table placed.1 methods placed.2 := by
  induction methods generalizing cache with
  | nil => exact ⟨cached, .refl cache, .nil⟩
  | cons method rest ih =>
    have later : ∀ method ∈ rest, method.isVirtual = true → source method :=
      fun other mem => known other (mem_cons_of_mem _ mem)
    simp only [placeMethods]
    split
    · rename_i isVirtual
      obtain ⟨first, grows, slot⟩ := placeMethod_cached hier interface cached
        (known method (mem_cons_self ..) isVirtual)
      obtain ⟨last, grows', offsets⟩ := ih first later
      refine ⟨last, grows.trans grows', ?_⟩
      unfold Offsets
      rw [filter_cons_of_pos isVirtual]
      exact .cons (slot.mono grows') offsets
    · rename_i notVirtual
      obtain ⟨last, grows, offsets⟩ := ih cached later
      refine ⟨last, grows, ?_⟩
      unfold Offsets
      rw [filter_cons_of_neg notVirtual]
      exact offsets

theorem placeInterfaces_cached (hier : Hierarchy) (cached : Cached table source cache)
    (known : ∀ interface ∈ interfaces, ∀ method ∈ (blocks interface).methods,
      method.isVirtual = true → source method) :
    let placed := hier.placeInterfaces blocks table interfaces cache
    Cached table source placed.1 ∧ Grows cache placed.1 ∧ ∀ entry ∈ placed.2,
        Offsets table placed.1 (blocks entry.interface).methods entry.offsets := by
  induction interfaces generalizing cache with
  | nil => exact ⟨cached, .refl cache, by simp [placeInterfaces]⟩
  | cons interface rest ih =>
    obtain ⟨first, grows, offsets⟩ := placeMethods_cached hier interface cached
      (known interface (mem_cons_self ..))
    obtain ⟨last, grows', entries⟩ := ih first fun other mem => known other (mem_cons_of_mem _ mem)
    refine ⟨last, grows.trans grows', ?_⟩
    intro entry mem
    cases mem with
    | head => exact offsets.mono grows'
    | tail _ mem => exact entries entry mem

theorem cached_empty (table : List MethodBlock) (source : MethodBlock → Prop) :
    Cached table source ⟨[], 0⟩ where
  signatures := .nil
  indices := .nil
  placed _ mem := by cases mem
  sources _ mem := by cases mem
  covers index lower upper := absurd upper (Nat.not_lt.mpr lower)

end

/-! ## Installation -/

section
variable {source : MethodBlock → Prop}

theorem mirandaBlock_origin (self pos : Nat) (miranda : Miranda) :
    (mirandaBlock self pos miranda).origin ≠ .declared := by
  unfold mirandaBlock
  simp only
  split <;> simp

theorem mirandaBlocks_eq (self pos : Nat) (mirandas : List Miranda) :
    (mirandaBlocks self pos mirandas).map MethodBlock.methodTableIndex =
      mirandas.map Miranda.index := by
  induction mirandas generalizing pos with
  | nil => rfl
  | cons miranda rest ih => simp [mirandaBlocks, ih, mirandaBlock]

theorem mem_mirandaBlocks (mem : block ∈ mirandaBlocks self pos mirandas) :
    ∃ miranda ∈ mirandas, ∃ place, block = mirandaBlock self place miranda := by
  induction mirandas generalizing pos with
  | nil => cases mem
  | cons miranda rest ih =>
    cases mem with
    | head => exact ⟨miranda, mem_cons_self .., pos, rfl⟩
    | tail _ mem =>
      obtain ⟨other, listed, found⟩ := ih mem
      exact ⟨other, mem_cons_of_mem _ listed, found⟩

variable {miranda : Miranda}

theorem mirandaBlock_mem (self pos : Nat) (mem : miranda ∈ mirandas) :
    ∃ place, mirandaBlock self place miranda ∈ mirandaBlocks self pos mirandas := by
  induction mirandas generalizing pos with
  | nil => cases mem
  | cons first rest ih =>
    cases mem with
    | head => exact ⟨pos, mem_cons_self ..⟩
    | tail _ mem =>
      obtain ⟨place, found⟩ := ih (pos + 1) mem
      exact ⟨place, mem_cons_of_mem _ found⟩

def installed (table : List MethodBlock) (self pos : Nat) (cache : MirandaCache) :
    List MethodBlock :=
  installMirandas (table ++ replicate cache.newSlots default)
    (mirandaBlocks self pos cache.mirandas)

@[simp] theorem length_installed :
    (installed table self pos cache).length = table.length + cache.newSlots := by
  show (fill MethodBlock.methodTableIndex _ _).length = _
  simp

variable (cached : Cached table source cache)
include cached

theorem installed_distinct : (mirandaBlocks self pos cache.mirandas).Pairwise fun first second =>
      first.methodTableIndex ≠ second.methodTableIndex := by
  have indices := cached.indices
  rw [← mirandaBlocks_eq self pos] at indices
  exact pairwise_map.mp indices

theorem Cached.index_lt (mem : miranda ∈ cache.mirandas) :
    miranda.index < table.length + cache.newSlots := by
  rcases cached.placed miranda mem with ⟨entry, _, found, -⟩ | ⟨-, -, upper⟩
  · have bound := (List.getElem?_eq_some_iff.mp found).1
    omega
  · exact upper

theorem installed_miranda (self pos : Nat) (mem : miranda ∈ cache.mirandas) :
    ∃ place, (installed table self pos cache)[miranda.index]? =
      some (mirandaBlock self place miranda) := by
  obtain ⟨place, listed⟩ := mirandaBlock_mem self pos mem
  refine ⟨place, ?_⟩
  apply Fill.getElem?_written (installed_distinct cached) listed
  simpa [mirandaBlock] using cached.index_lt mem

theorem installed_cases (found : (installed table self pos cache)[index]? = some entry) :
    (∃ miranda ∈ cache.mirandas, miranda.index = index ∧
      ∃ place, entry = mirandaBlock self place miranda) ∨
    table[index]? = some entry ∧ ∀ miranda ∈ cache.mirandas, miranda.index ≠ index := by
  rcases Fill.getElem?_cases (installed_distinct cached) found with
    ⟨mem, same⟩ | ⟨kept, unwritten⟩
  · obtain ⟨miranda, listed, place, rfl⟩ := mem_mirandaBlocks mem
    exact .inl ⟨miranda, listed, same, place, rfl⟩
  · right
    have absent : ∀ miranda ∈ cache.mirandas, miranda.index ≠ index := by
      intro miranda mem
      obtain ⟨place, listed⟩ := mirandaBlock_mem self pos mem
      exact unwritten _ listed
    refine ⟨?_, absent⟩
    by_cases old : index < table.length
    · rwa [getElem?_append_left old] at kept
    · have bound := (List.getElem?_eq_some_iff.mp kept).1
      rw [List.length_append, List.length_replicate] at bound
      obtain ⟨miranda, mem, same⟩ := cached.covers index (by omega) bound
      exact absurd same (absent miranda mem)

theorem installed_sole {index index' : Nat} {entry entry' : MethodBlock}
    (sole : ∀ {index index' : Nat} {entry entry' : MethodBlock},
      table[index]? = some entry → table[index']? = some entry' → entry.origin ≠ .declared →
      entry.signature = sig → entry'.signature = sig → index' = index)
    (found : (installed table self pos cache)[index]? = some entry)
    (found' : (installed table self pos cache)[index']? = some entry')
    (other : entry.origin ≠ .declared) (same : entry.signature = sig)
    (same' : entry'.signature = sig) : index' = index := by
  -- A Miranda of the class replaces the only entry with its signature, if there is one.
  have alone {miranda : Miranda} {index : Nat} {entry : MethodBlock}
      (mem : miranda ∈ cache.mirandas) (same : miranda.signature = sig)
      (found : table[index]? = some entry) (same' : entry.signature = sig) :
      index = miranda.index := by
    rcases cached.placed miranda mem with ⟨old, target, place, bridge, agree⟩ | ⟨absent, -⟩
    · exact sole place found (by simp [bridge]) (agree.trans same) same'
    · exact absurd (same'.trans same.symm) (absent entry (mem_of_getElem? found))
  rcases installed_cases cached found with ⟨source, listed, here, place, rfl⟩ | ⟨kept, -⟩
  · rcases installed_cases cached found' with ⟨source', listed', here', place', rfl⟩ | ⟨kept', -⟩
    · have equal := inj_on_of_nodup_map cached.signatures listed' listed (same'.trans same.symm)
      rw [← here, ← here', equal]
    · rw [← here]
      exact alone listed same kept' same'
  · rcases installed_cases cached found' with ⟨source', listed', here', place', rfl⟩ | ⟨kept', -⟩
    · rw [← here']
      exact (alone listed' same' kept same).symm
    · exact sole kept kept' other same same'

theorem installed_entry {index : Nat} (found : table[index]? = some entry) (self pos : Nat) :
    ∃ entry', (installed table self pos cache)[index]? = some entry' ∧
      (entry' = entry ∨ ∃ miranda ∈ cache.mirandas, ∃ target place,
        entry.origin = .bridge target ∧ entry.signature = miranda.signature ∧
        entry' = mirandaBlock self place miranda) := by
  have bound := (List.getElem?_eq_some_iff.mp found).1
  have inside : index < (installed table self pos cache).length := by
    rw [length_installed]
    omega
  have present := getElem?_eq_getElem inside
  refine ⟨_, present, ?_⟩
  rcases installed_cases cached present with ⟨miranda, mem, here, place, shape⟩ | ⟨kept, -⟩
  · rcases cached.placed miranda mem with ⟨old, target, found', bridge, agree⟩ | ⟨-, lower, -⟩
    · rw [here, found] at found'
      cases found'
      exact .inr ⟨miranda, mem, target, place, bridge, agree, shape⟩
    · omega
  · exact .inl (Option.some.inj (kept.symm.trans found))

end

end JamVM.Class.Hierarchy
